import LanguageClient.Proofs.Session.Exchanges
import LanguageClient.Proofs.Session.Writer

/-!
# The course of a call

A call goes from stage to stage, and what it does on the way to what all calls share is little: it
changes the state of the session, takes a request number, stands in the queue for the writer, puts a
frame on the wire, takes the writer away. What the calls share in this sense, and where each of them
stands, is a *view* (`Session.view`). `Course` lists the moves of a view, and `Change.course`
says that a session makes no others. What a session goes through from its beginning to its end is
shown about views.

How a piece of work goes on is told once for all purposes (`Works`), and so is how it ends (`Ends`);
the stage that a call reaches when its work has come to a result is a function of the purpose of the
work (`Purpose.next`).
-/

namespace LanguageClient

/-- A piece of work in which something is being sent: an exchange if there is a request number, and a
message otherwise. -/
def Work.carrying : Option Nat → Sending → Work
  | some id, sending => .exchange (.sending id sending)
  | none, sending => .send sending

def initializedNotice : Rpc.Notification := .make "initialized" (some (.obj []))

def exitNotice : Rpc.Notification := .make "exit" none

def Outcome.ofStop : Except SessionError Unit → Outcome
  | .ok _ => .stopped
  | .error e => .failed e

/-- The stage that a call reaches when its work has come to a result. How a server's introduction is
read matters to the handshake only. -/
def Purpose.next (reads : Handshake.Decoder) (deadline : Option Nat)
    (result : Except SessionError Json) : Purpose → Stage
  | .answer => .over (.ofResult result)
  | .message outcome =>
    match result with
    | .ok _ => .over outcome
    | .error e => .over (.failed e)
  | .introduce =>
    match result with
    | .error e => .givingUp .fresh e.asHandshake
    | .ok v =>
      match reads v with
      | .error e => .givingUp .fresh (SessionError.codec (.data e)).asHandshake
      | .ok introduction =>
        .working (.send (.fresh initializedNotice.payload)) deadline (.confirm introduction)
  | .confirm _ =>
    match result with
    | .ok _ => .over .started
    | .error e => .givingUp .fresh e.asHandshake
  | .shutdown =>
    .working (.send (.fresh exitNotice.payload)) none (.leave (result.map fun _ => ()))
  | .leave outcome => .ending .fresh outcome

/-- The stage that a call reaches when its work has taken too long. -/
def Purpose.late (opening closing : Nat) : Purpose → Stage
  | .introduce | .confirm _ => .givingUp .fresh (.timeout .opening opening)
  | .answer | .message _ => .over (.failed (.timeout .closing closing))
  | .shutdown =>
    .working (.send (.fresh exitNotice.payload)) none
      (.leave (.error (.timeout .closing closing)))
  | .leave outcome => .ending .fresh outcome

/-- What follows on work for a purpose, whatever came of it: a message of the session's own, the end
of the call, or that the stream is closed. -/
inductive Stage.Follows : Purpose → Stage → Prop where
  | over {purpose : Purpose} {outcome : Outcome} : Follows purpose (.over outcome)
  | givesUp {purpose : Purpose} {error : SessionError} : Follows purpose (.givingUp .fresh error)
  | confirms {deadline : Option Nat} {introduction : Handshake.Introduction} :
      Follows .introduce
        (.working (.send (.fresh initializedNotice.payload)) deadline (.confirm introduction))
  | leaves {deadline : Option Nat} {outcome : Except SessionError Unit} :
      Follows .shutdown (.working (.send (.fresh exitNotice.payload)) deadline (.leave outcome))
  | ends {purpose : Purpose} {outcome : Except SessionError Unit} :
      Follows purpose (.ending .fresh outcome)

theorem Purpose.follows_next (purpose : Purpose) (reads : Handshake.Decoder)
    (deadline : Option Nat) (result : Except SessionError Json) :
    Stage.Follows purpose (purpose.next reads deadline result) := by
  cases purpose with
  | answer => exact .over
  | message outcome => cases result <;> exact .over
  | introduce =>
    cases result with
    | error e => exact .givesUp
    | ok v =>
      simp only [Purpose.next]
      split
      · exact .givesUp
      · exact .confirms
  | confirm introduction =>
    cases result with
    | error e => exact .givesUp
    | ok v => exact .over
  | shutdown => exact .leaves
  | leave outcome => exact .ends

theorem Purpose.follows_late (purpose : Purpose) (opening closing : Nat) :
    Stage.Follows purpose (purpose.late opening closing) := by
  cases purpose with
  | introduce | confirm introduction => exact .givesUp
  | answer | message outcome => exact .over
  | shutdown => exact .leaves
  | leave outcome => exact .ends

namespace Session

/-- A frame that has been put on the wire: by whom and for what (a refusal of a server request serves
no purpose of the client's own), under which request number, and what it carries. -/
structure Dispatch where
  task : Task
  purpose : Option Purpose
  id : Option Nat
  payload : List UInt8

end Session

def Stage.posted (n : Nat) : Stage → List Session.Dispatch
  | .working (.exchange (.sending id (.writing payload []))) _ purpose =>
    [⟨.call n, some purpose, some id, payload⟩]
  | .working (.send (.writing payload [])) _ purpose => [⟨.call n, some purpose, none, payload⟩]
  | _ => []

def RefusalStage.posted (n : Nat) : RefusalStage → List Session.Dispatch
  | .sending (.writing payload []) => [⟨.refusal n, none, none, payload⟩]
  | _ => []

namespace Session

/-- The frame that event `e` puts on the wire completely. -/
def posted (s : Session) : Event → List Dispatch
  | .step (.call n) => (s.stageOf n).elim [] (Stage.posted n)
  | .step (.refusal n) => (s.refusals.get? n).elim [] (RefusalStage.posted n)
  | _ => []

/-! ## Views and their moves

A view forgets mailboxes, the table of requests, the open documents and the log. What is left
decides about the order of frames and about the states of a session. The moves are built from the
inside: how work goes on and how it ends, how the stream is closed, what a call does by one step,
and what an event does. -/

/-- What the calls of a session share, and where each of them stands. -/
structure View where
  now : Nat
  state : SessionState
  introduction : Option Handshake.Introduction
  /-- The parameters of the opening request. -/
  greeting : Json
  /-- How the answer to it is read. -/
  reads : Handshake.Decoder
  hungUp : Bool
  reader : ReaderStage
  aborted : Bool
  writer : Bool
  next : Nat
  queue : List Task
  sent : List (List UInt8)
  stage : Nat → Option Stage

def view (s : Session) : View :=
  { now := s.now
    state := s.state
    introduction := s.introduction
    greeting := Handshake.params s.processId s.settings.folders
    reads := s.settings.reads
    hungUp := s.hungUp
    reader := s.reader
    aborted := s.readerAborted
    writer := s.writer
    next := s.ids.next
    queue := s.queue
    sent := s.sent
    stage := s.stageOf }

namespace View

def put (h : View) (n : Nat) (stage : Option Stage) : View :=
  { h with stage := fun m => if m = n then stage else h.stage m }

variable {h k : View} {n : Nat} {purpose : Purpose} {result : Except SessionError Json}

theorem put_stage_eq_some {m : Nat} {next : Option Stage} {stage : Stage} :
    (h.put n next).stage m = some stage ↔
      m = n ∧ next = some stage ∨ m ≠ n ∧ h.stage m = some stage := by
  change (if m = n then next else h.stage m) = some stage ↔ _
  by_cases hm : m = n
  · simp [hm]
  · simp [hm]

theorem put_stage_self (h : View) (n : Nat) (next : Option Stage) :
    (h.put n next).stage n = next := if_pos rfl

theorem put_stage_of_ne (h : View) {m : Nat} (next : Option Stage) (hm : m ≠ n) :
    (h.put n next).stage m = h.stage m := if_neg hm

def join (h : View) (t : Task) : View := { h with queue := h.queue ++ [t] }

def leave (h : View) (t : Task) : View := { h with queue := h.queue.filter (· != t) }

def post (h : View) (payload : List UInt8) : View := { h with sent := h.sent ++ [payload] }

/-- The last message of the handshake makes the session run. -/
def settle (h : View) : Purpose → Except SessionError Json → View
  | .confirm introduction, .ok _ =>
    { h with state := .running, introduction := some introduction }
  | _, _ => h

theorem settle_eq (h : View) (purpose : Purpose) (result : Except SessionError Json) :
    ∃ state introduction, h.settle purpose result = { h with state, introduction } := by
  cases purpose with
  | confirm introduction =>
    cases result with
    | ok value => exact ⟨_, _, rfl⟩
    | error e => exact ⟨_, _, rfl⟩
  | _ => exact ⟨_, _, rfl⟩

theorem settle_of_not_confirmed
    (hnot : ¬ ∃ introduction value, purpose = .confirm introduction ∧ result = .ok value) :
    h.settle purpose result = h := by
  cases purpose with
  | confirm introduction =>
    cases result with
    | ok value => exact absurd ⟨introduction, value, rfl, rfl⟩ hnot
    | error e => rfl
  | _ => rfl

/-- How a piece of work of call `n` goes on. -/
inductive Works (h : View) (n : Nat) :
    Work → List Happening → List Dispatch → View → Work → Purpose → Prop where
  | registers {method : String} {params : Option Json} {purpose : Purpose} :
      Works h n (.exchange (.fresh method params)) [.registered n h.next] []
        { h with next := h.next + 1 }
        (.exchange (.registered ⟨h.next, method, params⟩ h.next)) purpose
  | tests {request : Rpc.Request} {id : Nat} {purpose : Purpose} (hup : h.hungUp = false) :
      Works h n (.exchange (.registered request id)) [] [] h
        (.carrying (some id) (.fresh request.payload)) purpose
  | joins {id : Option Nat} {payload : List UInt8} {purpose : Purpose} :
      Works h n (.carrying id (.fresh payload)) [] [] (h.join (.call n))
        (.carrying id (.queued payload)) purpose
  | takes {id : Option Nat} {payload : List UInt8} {purpose : Purpose}
      (hhead : h.queue.head? = some (.call n)) (hwriter : h.writer = true) :
      Works h n (.carrying id (.queued payload)) [] [] h
        (.carrying id (.writing payload (Frame.encode payload))) purpose
  | written {id : Nat} {payload : List UInt8} {purpose : Purpose} :
      Works h n (.carrying (some id) (.writing payload [])) []
        [⟨.call n, some purpose, some id, payload⟩] ((h.leave (.call n)).post payload)
        (.exchange (.awaiting id)) purpose

/-- How a piece of work of call `n` comes to a result. -/
inductive Ends (h : View) (n : Nat) :
    Work → List Happening → List Dispatch → View → Except SessionError Json → Purpose → Prop where
  | hungUp {request : Rpc.Request} {id : Nat} {purpose : Purpose} (hup : h.hungUp = true) :
      Ends h n (.exchange (.registered request id)) [.resolved n id (.error .closed)] []
        (h.leave (.call n)) (.error .closed) purpose
  | gone (id : Option Nat) {payload : List UInt8} {purpose : Purpose}
      (hhead : h.queue.head? = some (.call n)) (hwriter : h.writer = false) :
      Ends h n (.carrying id (.queued payload))
        (id.toList.map fun id => .resolved n id (.error .closed)) [] (h.leave (.call n))
        (.error .closed) purpose
  | replied {id : Nat} {reply : Reply} {purpose : Purpose} :
      Ends h n (.exchange (.awaiting id)) [.resolved n id reply.result] [] (h.leave (.call n))
        reply.result purpose
  | written {payload : List UInt8} {purpose : Purpose} :
      Ends h n (.carrying none (.writing payload [])) []
        [⟨.call n, some purpose, none, payload⟩] ((h.leave (.call n)).post payload) (.ok .null)
        purpose

/-- One step of closing the stream on behalf of call `n`. -/
inductive Shuts (h : View) (n : Nat) : Closing → View → Closing → Prop where
  | joins : Shuts h n .fresh (h.join (.call n)) .queued
  | takes {next : Closing} (hhead : h.queue.head? = some (.call n))
      (hnext : next = .shutting ∨ next = .aborting) :
      Shuts h n .queued { h.leave (.call n) with writer := false } next
  | shuts : Shuts h n .shutting h .aborting
  | aborts : Shuts h n .aborting { h with aborted := true } .joining
  | joined (hreader : h.reader = .ended) : Shuts h n .joining h .abandoning

/-- Both views are alike but for numbers, the queue and what is on the wire. -/
structure Alike (h k : View) : Prop where
  state : k.state = h.state
  introduction : k.introduction = h.introduction
  reader : k.reader = h.reader
  writer : k.writer = h.writer
  stage : k.stage = h.stage

theorem Works.keeps {work next : Work} {hs : List Happening} {out : List Dispatch}
    (hw : Works h n work hs out k next purpose) :
    h.Alike k := by
  cases hw <;> exact ⟨rfl, rfl, rfl, rfl, rfl⟩

theorem Ends.keeps {work : Work} {hs : List Happening} {out : List Dispatch}
    (he : Ends h n work hs out k result purpose) : h.Alike k := by
  cases he <;> exact ⟨rfl, rfl, rfl, rfl, rfl⟩

theorem Shuts.keeps {closing next : Closing} (hs : Shuts h n closing k next) :
    k.state = h.state ∧ k.introduction = h.introduction ∧ k.stage = h.stage := by
  cases hs <;> exact ⟨rfl, rfl, rfl⟩

end View

end Session

/-- Whether a call asks for traffic, and not for the beginning or the end of the session. -/
def Ask.isTraffic : Ask → Bool
  | .opening | .stop => false
  | _ => true

/-- The notification that a call sends, and what comes of the call once it is on the wire. -/
def Ask.notice : Ask → Option (Rpc.Notification × Outcome)
  | .notify method params => some (.make method params, .notified)
  | .document event => some (.make event.method (some event.params), .routed .forwarded)
  | _ => none

/-- Whether a piece of work goes on by itself: it neither waits for anything nor has it come to where
it will. -/
def Work.goesOn : Work → Bool
  | .exchange (.fresh _ _) | .exchange (.registered _ _) => true
  | .exchange (.sending _ (.fresh _)) | .send (.fresh _) => true
  | _ => false

namespace Session

namespace View

/-- What one step of call `n` does: to its stage, and to the rest of the view. -/
inductive Moves (h : View) (n : Nat) :
    Stage → List Happening → List Dispatch → View → Stage → Prop where
  -- The first steps of calls.
  | opens {deadline : Nat} :
      Moves h n (.fresh .opening) [] [] { h with state := .starting }
        (.working (.exchange (.fresh "initialize" (some h.greeting))) (some deadline) .introduce)
  | stopsIdle (hstate : h.state = .stopped ∨ h.state = .stopping) :
      Moves h n (.fresh .stop) [] [] h (.over .stopped)
  | halts {previous : SessionState} {deadline wakeAt : Nat} (hstate : h.state = previous)
      (hbusy : previous = .running ∨ previous = .starting) :
      Moves h n (.fresh .stop) [] [] { h with state := .stopping }
        (.draining previous deadline wakeAt)
  | admits {ask : Ask} (hask : ask.isTraffic = true) (hstate : h.state = .running)
      (hup : h.hungUp = false) : Moves h n (.fresh ask) [] [] h (.admitted ask)
  | rejects {ask : Ask} {error : SessionError} (hask : ask.isTraffic = true)
      (hdoor : h.state = .running → h.hungUp = true)
      (herror : error = .closed ∨ error = .notRunning h.state) :
      Moves h n (.fresh ask) [] [] h (.over (.failed error))
  | asks {method : String} {params : Option Json} :
      Moves h n (.admitted (.request method params)) [] [] h
        (.working (.exchange (.fresh method params)) none .answer)
  | tells {ask : Ask} {notice : Rpc.Notification} {outcome : Outcome}
      (hnotice : ask.notice = some (notice, outcome)) :
      Moves h n (.admitted ask) [] [] h
        (.working (.carrying none (.fresh notice.payload)) none (.message outcome))
  | ignores {event : DocumentEvent} :
      Moves h n (.admitted (.document event)) [] [] h (.over (.routed .ignored))
  -- Work.
  | works {work next : Work} {hs : List Happening} {out : List Dispatch} {k : View}
      {deadline : Option Nat} {purpose : Purpose} (hw : Works h n work hs out k next purpose) :
      Moves h n (.working work deadline purpose) hs out k (.working next deadline purpose)
  | ends {work : Work} {hs : List Happening} {out : List Dispatch} {k : View}
      {result : Except SessionError Json} {deadline : Option Nat} {purpose : Purpose}
      (he : Ends h n work hs out k result purpose) :
      Moves h n (.working work deadline purpose) hs out (k.settle purpose result)
        (purpose.next h.reads deadline result)
  | expires {work : Work} {deadline opening closing : Nat} {purpose : Purpose}
      (hblocked : work.goesOn = false) (hlate : deadline ≤ h.now) :
      Moves h n (.working work (some deadline) purpose) [] [] (h.leave (.call n))
        (purpose.late opening closing)
  -- The end of the session, and of a session that did not begin.
  | looks {previous : SessionState} {deadline wakeAt wakeAt' : Nat} :
      Moves h n (.draining previous deadline wakeAt) [] [] h (.draining previous deadline wakeAt')
  | drains {previous : SessionState} {deadline wakeAt : Nat} :
      Moves h n (.draining previous deadline wakeAt) [] [] h (.drained previous)
  | departs {deadline : Nat} (hup : h.hungUp = false) :
      Moves h n (.drained .running) [] [] h
        (.working (.exchange (.fresh "shutdown" none)) (some deadline) .shutdown)
  | quits {previous : SessionState} (hup : previous = .running → h.hungUp = true) :
      Moves h n (.drained previous) [] [] h (.ending .fresh (.ok ()))
  | givesUp {closing next : Closing} {error : SessionError} {k : View}
      (hs : Shuts h n closing k next) :
      Moves h n (.givingUp closing error) [] [] k (.givingUp next error)
  | gaveUp {error : SessionError} :
      Moves h n (.givingUp .abandoning error) [] [] { h with state := .stopped }
        (.over (.failed error))
  | closes {closing next : Closing} {result : Except SessionError Unit} {k : View}
      (hs : Shuts h n closing k next) :
      Moves h n (.ending closing result) [] [] k (.ending next result)
  | closed {result : Except SessionError Unit} :
      Moves h n (.ending .abandoning result) [] [] { h with state := .stopped }
        (.over (.ofStop result))

/-- The moves of a view, with what happens to requests and which frames are put on the wire. -/
inductive Course (h : View) : Event → List Happening → List Dispatch → View → Prop where
  | quiet {e : Event} {hs : List Happening} (hheard : ∀ x ∈ hs, ∃ r, x = .heard r) :
      Course h e hs [] h
  | elapsed {e : Event} {now : Nat} (hnow : h.now ≤ now) : Course h e [] [] { h with now }
  | reader {reader : ReaderStage} {hungUp : Bool} (hread : h.reader ≠ .ended)
      (hup : h.hungUp = true → hungUp = true) :
      Course h (.step .reader) [] [] { h with reader, hungUp }
  | refusalJoins {n : Nat} : Course h (.step (.refusal n)) [] [] (h.join (.refusal n))
  | refusalLeaves {e : Event} {n : Nat} : Course h e [] [] (h.leave (.refusal n))
  | refusalWritten {n : Nat} {payload : List UInt8} :
      Course h (.step (.refusal n)) [] [⟨.refusal n, none, none, payload⟩]
        ((h.leave (.refusal n)).post payload)
  | called {n : Nat} {ask : Ask} (hn : h.stage n = none) :
      Course h (.call n ask) [] [] (h.put n (some (.fresh ask)))
  | dropped {n : Nat} {stage : Stage} (hn : h.stage n = some stage) :
      Course h (.drop n) [] [] ((h.leave (.call n)).put n none)
  | moved {n : Nat} {stage next : Stage} {hs : List Happening} {out : List Dispatch} {k : View}
      (hn : h.stage n = some stage) (hm : Moves h n stage hs out k next) :
      Course h (.step (.call n)) hs out (k.put n (some next))
  | poured {n count : Nat} (id : Option Nat) {payload rest rest' : List UInt8}
      {deadline : Option Nat} {purpose : Purpose}
      (hn : h.stage n = some (.working (.carrying id (.writing payload rest)) deadline purpose)) :
      Course h (.accept (.call n) count) [] []
        (h.put n (some (.working (.carrying id (.writing payload rest')) deadline purpose)))
  | refused {n : Nat} (id : Option Nat) {payload rest : List UInt8} {deadline : Option Nat}
      {purpose : Purpose} {cause : IoError}
      (hn : h.stage n = some (.working (.carrying id (.writing payload rest)) deadline purpose)) :
      Course h (.refuse (.call n) cause)
        (id.toList.map fun id => .resolved n id (.error (.transport (.io cause)))) []
        ((h.leave (.call n)).put n
          (some (purpose.next h.reads deadline (.error (.transport (.io cause))))))

variable {h k h' : View} {stage next : Stage} {hs : List Happening} {out : List Dispatch}
  {e : Event} {n : Nat}

/-- What a step of a call leaves alone in the view, and what it only adds to. -/
structure Around (h k : View) (out : List Dispatch) : Prop where
  greeting : k.greeting = h.greeting
  reads : k.reads = h.reads
  stage : k.stage = h.stage
  now : k.now = h.now
  reader : k.reader = h.reader
  hungUp : k.hungUp = h.hungUp
  writer : k.writer = h.writer ∨ k.writer = false
  aborted : h.aborted = true → k.aborted = true
  sent : k.sent = h.sent ++ out.map (·.payload)
  next : h.next ≤ k.next

theorem Shuts.around {closing next : Closing} (hs : Shuts h n closing k next) : h.Around k [] := by
  cases hs <;> constructor <;> simp [leave, join]

theorem Moves.around (hm : Moves h n stage hs out k next) : h.Around k out := by
  cases hm with
  | works hw => cases hw <;> constructor <;> simp [leave, join, post]
  | @ends work hs out k result deadline purpose he =>
    obtain ⟨state, introduction, heq⟩ := settle_eq k purpose result
    rw [heq]
    cases he <;> constructor <;> simp [leave, post]
  | givesUp hs => exact hs.around
  | closes hs => exact hs.around
  | _ => constructor <;> simp [leave]

/-- What one event means to call `n`, which stands at `stage`, unless its caller loses interest. -/
inductive Lot (h : View) (n : Nat) (stage : Stage) : Event → List Happening → View → Prop where
  | stays {e : Event} {hs : List Happening} {h' : View} (hstage : h'.stage n = some stage)
      (hnone : ∀ id result, .resolved n id result ∉ hs) : Lot h n stage e hs h'
  | moves {hs : List Happening} {out : List Dispatch} {k : View} {next : Stage}
      (hm : Moves h n stage hs out k next) : Lot h n stage (.step (.call n)) hs (k.put n (some next))
  | pours {count : Nat} (id : Option Nat) {payload rest rest' : List UInt8} {deadline : Option Nat}
      {purpose : Purpose}
      (hstage : stage = .working (.carrying id (.writing payload rest)) deadline purpose) :
      Lot h n stage (.accept (.call n) count) []
        (h.put n (some (.working (.carrying id (.writing payload rest')) deadline purpose)))
  | refuses (id : Option Nat) {payload rest : List UInt8} {deadline : Option Nat}
      {purpose : Purpose} {cause : IoError}
      (hstage : stage = .working (.carrying id (.writing payload rest)) deadline purpose) :
      Lot h n stage (.refuse (.call n) cause)
        (id.toList.map fun id => .resolved n id (.error (.transport (.io cause))))
        ((h.leave (.call n)).put n
          (some (purpose.next h.reads deadline (.error (.transport (.io cause))))))

theorem Moves.resolved {m id : Nat} {result : Except SessionError Json}
    (hm : Moves h n stage hs out k next) (hr : .resolved m id result ∈ hs) : m = n := by
  cases hm with
  | works hw => cases hw <;> simp at hr
  | ends he =>
    cases he with
    | gone id' hhead hwriter =>
      obtain ⟨_, -, heq⟩ := List.mem_map.mp hr
      exact (Happening.resolved.inj heq).1.symm
    | written => cases hr
    | _ => exact (Happening.resolved.inj (List.mem_singleton.mp hr)).1
  | _ => cases hr

theorem Course.lot (hcourse : h.Course e hs out h') (hn : h.stage n = some stage)
    (hdrop : e ≠ .drop n) : Lot h n stage e hs h' := by
  have hnothing : ∀ id result, (.resolved n id result : Happening) ∉ ([] : List Happening) :=
    fun _ _ => List.not_mem_nil
  cases hcourse with
  | quiet hheard =>
    refine .stays hn fun id result hr => ?_
    obtain ⟨r, heq⟩ := hheard _ hr
    cases heq
  | @called m ask hm =>
    have hne : n ≠ m := by
      rintro rfl
      cases hn.symm.trans hm
    exact .stays ((put_stage_of_ne _ _ hne).trans hn) hnothing
  | @dropped m stage' hm =>
    have hne : n ≠ m := by
      rintro rfl
      exact hdrop rfl
    exact .stays ((put_stage_of_ne _ _ hne).trans hn) hnothing
  | @moved m stage' next hs out k hm hmove =>
    by_cases hne : n = m
    · subst hne
      obtain rfl := Option.some.inj (hn.symm.trans hm)
      exact .moves hmove
    · have hstage : k.stage n = some stage := hmove.around.stage ▸ hn
      exact .stays ((put_stage_of_ne _ _ hne).trans hstage) fun id result hr =>
        hne (hmove.resolved hr)
  | @poured m count id payload rest rest' deadline purpose hm =>
    by_cases hne : n = m
    · subst hne
      exact .pours id (Option.some.inj (hn.symm.trans hm))
    · exact .stays ((put_stage_of_ne _ _ hne).trans hn) hnothing
  | @refused m id payload rest deadline purpose cause hm =>
    by_cases hne : n = m
    · subst hne
      exact .refuses id (Option.some.inj (hn.symm.trans hm))
    · refine .stays ((put_stage_of_ne _ _ hne).trans hn) fun id' result hr => ?_
      obtain ⟨_, -, heq⟩ := List.mem_map.mp hr
      exact hne (Happening.resolved.inj heq).1.symm
  | _ => exact .stays hn hnothing

theorem Course.reader_eq (hcourse : h.Course e hs out h') :
    h'.reader = h.reader ∨ e = .step .reader ∧ h.reader ≠ .ended := by
  cases hcourse with
  | reader hread hup => exact .inr ⟨rfl, hread⟩
  | moved hn hm => exact .inl hm.around.reader
  | _ => exact .inl rfl

/-- The queue stays as it is, or task `t` joins it at its end or leaves it. -/
def Queues (t : Task) (q q' : List Task) : Prop :=
  q' = q ∨ q' = q ++ [t] ∨ q' = q.filter (· != t)

theorem Works.queue {work next : Work} {purpose : Purpose}
    (hw : Works h n work hs out k next purpose) : Queues (.call n) h.queue k.queue := by
  cases hw with
  | joins => exact .inr (.inl rfl)
  | written => exact .inr (.inr rfl)
  | _ => exact .inl rfl

theorem Shuts.queue {closing next : Closing} (hs : Shuts h n closing k next) :
    Queues (.call n) h.queue k.queue := by
  cases hs with
  | joins => exact .inr (.inl rfl)
  | takes hhead hnext => exact .inr (.inr rfl)
  | _ => exact .inl rfl

theorem Moves.queue (hm : Moves h n stage hs out k next) : Queues (.call n) h.queue k.queue := by
  cases hm with
  | works hw => exact hw.queue
  | @ends work hs out k result deadline purpose he =>
    obtain ⟨state, introduction, heq⟩ := settle_eq k purpose result
    rw [heq]
    cases he <;> exact .inr (.inr rfl)
  | expires hb hlate => exact .inr (.inr rfl)
  | givesUp hs => exact hs.queue
  | closes hs => exact hs.queue
  | _ => exact .inl rfl

theorem Course.queue (hcourse : h.Course e hs out h') : ∃ t, Queues t h.queue h'.queue := by
  cases hcourse with
  | refusalJoins => exact ⟨_, .inr (.inl rfl)⟩
  | refusalLeaves | refusalWritten | dropped hn | refused id hn => exact ⟨_, .inr (.inr rfl)⟩
  | moved hn hm => exact ⟨_, hm.queue⟩
  | _ => exact ⟨.reader, .inl rfl⟩

theorem Course.writer_eq (hcourse : h.Course e hs out h') :
    h'.writer = h.writer ∨ ∃ n stage, h.stage n = some stage ∧
      h.queue.head? = some (.call n) ∧
      ((∃ error, stage = .givingUp .queued error) ∨ ∃ result, stage = .ending .queued result) := by
  cases hcourse with
  | @moved n stage next hs out k hn hm =>
    cases hm with
    | works hw => exact .inl hw.keeps.writer
    | @ends work hs out k result deadline purpose he =>
      obtain ⟨state, introduction, heq⟩ := settle_eq k purpose result
      rw [heq]
      exact .inl he.keeps.writer
    | givesUp hs =>
      cases hs with
      | takes hhead hnext => exact .inr ⟨n, _, hn, hhead, .inl ⟨_, rfl⟩⟩
      | _ => exact .inl rfl
    | closes hs =>
      cases hs with
      | takes hhead hnext => exact .inr ⟨n, _, hn, hhead, .inr ⟨_, rfl⟩⟩
      | _ => exact .inl rfl
    | _ => exact .inl rfl
  | _ => exact .inl rfl

end View

/-! ## What the functions of a session do to its view

One equation for each function that a change is made of, so that the case analysis below rewrites
and unfolds nothing. -/

variable {s s' mid : Session} {n : Nat}

variable {h : View} {stage : Stage} {purpose : Purpose}

theorem view_moveCall {next : Stage} (hmid : mid.view = h) (hn : h.stage n = some stage) :
    (mid.moveCall n next).view = h.put n (some next) := by
  subst hmid
  have hstage : (mid.moveCall n next).stageOf = (mid.view.put n (some next)).stage := by
    funext m
    have hn' : mid.stageOf n = some stage := hn
    rw [stageOf_moveCall, hn']
    rfl
  obtain ⟨calls, heq⟩ := moveCall_eq mid n next
  rw [heq] at hstage ⊢
  unfold view
  rw [hstage]
  rfl

theorem view_of_calls {calls : Table Call} {stage : Option Stage}
    (h : ∀ m, Session.stageOf { s with calls } m = if m = n then stage else s.stageOf m) :
    Session.view { s with calls } = s.view.put n stage := by
  have hstage : Session.stageOf { s with calls } = (s.view.put n stage).stage := funext h
  unfold view
  rw [hstage]
  rfl

theorem view_setCall (s : Session) (n : Nat) (c : Call) :
    Session.view { s with calls := s.calls.set n c } = s.view.put n (some c.stage) :=
  view_of_calls fun m => stageOf_setCall s n m c

theorem view_eraseCall (s : Session) (n : Nat) :
    Session.view { s with calls := s.calls.erase n } = s.view.put n none :=
  view_of_calls fun m => stageOf_eraseCall s n m

theorem view_of_replies (h : ∃ calls pending log, s' = { s with calls, pending, log })
    (hstage : ∀ m, s'.stageOf m = s.stageOf m) : s'.view = s.view := by
  obtain ⟨calls, pending, log, rfl⟩ := h
  have hstage' := funext hstage
  unfold view
  rw [hstage']

theorem view_abandonPending (s : Session) : s.abandonPending.view = s.view := by
  refine view_of_replies ?_ (stageOf_abandonPending s)
  obtain ⟨calls, heq⟩ := abandonPending_eq s
  exact ⟨calls, {}, s.log, heq⟩

theorem view_complete (s : Session) (response : Rpc.Response) :
    (s.complete response).view = s.view :=
  view_of_replies (complete_eq s response) (stageOf_complete s response)

theorem view_handle (s : Session) (payload : List UInt8) : (s.handle payload).view = s.view := by
  rw [handle]
  split
  · exact view_complete s _
  · rfl
  · split <;> rfl
  · rfl

theorem view_finishWork {deadline : Option Nat} {result : Except SessionError Json}
    (hmid : mid.view = h) (hn : h.stage n = some stage) :
    (mid.finishWork n deadline purpose result).view =
      (h.settle purpose result).put n (some (purpose.next h.reads deadline result)) := by
  subst hmid
  cases purpose with
  | answer | message outcome | confirm introduction | shutdown | leave outcome =>
    cases result <;> exact view_moveCall rfl hn
  | introduce =>
    cases result with
    | error e => exact view_moveCall rfl hn
    | ok v =>
      cases hv : mid.settings.reads v with
      | error e | ok introduction =>
        have hreads : mid.view.reads v = _ := hv
        rw [finishWork, Purpose.next, hv, hreads]
        exact view_moveCall rfl hn

theorem view_expire (hmid : mid.view = h) (hn : h.stage n = some stage) :
    (mid.expire n purpose).view = h.put n (some (purpose.late
      mid.settings.handshakeTimeout.millis mid.settings.shutdownTimeout.millis)) := by
  subst hmid
  cases purpose with
  | introduce => exact view_moveCall rfl hn
  | confirm introduction => exact view_moveCall rfl hn
  | _ => exact view_finishWork rfl hn

theorem view_setState (hmid : mid.view = h) (state : SessionState) :
    (mid.setState state).view = { h with state } := by
  subst hmid
  rfl

theorem view_finishStop {result : Except SessionError Unit} (hmid : mid.view = h)
    (hn : h.stage n = some stage) :
    (mid.finishStop n result).view =
      View.put { h with state := .stopped } n (some (.over (.ofStop result))) := by
  cases result <;> exact view_moveCall (view_setState hmid _) hn

theorem view_dropWork (s : Session) (t : Task) (work : Work) :
    (s.dropWork t work).view = s.view.leave t := by
  obtain ⟨pending, h⟩ := dropWork_eq s t work
  rw [h]
  rfl

theorem view_leave (hl : Lined s) {t : Task} (h : s.errand t = none) :
    s.view.leave t = s.view := by
  have hout : t ∉ s.queue := by
    rw [hl.queued, h]
    nofun
  have hqueue : s.queue.filter (· != t) = s.queue :=
    List.filter_eq_self.mpr fun u hu => bne_iff_ne.mpr fun heq => hout (heq ▸ hu)
  unfold View.leave view
  rw [hqueue]

theorem view_leave_call {mailbox : Option Reply} (hl : Lined s) (hc : s.At n stage mailbox)
    (hnone : stage.errand = none) : s.view.leave (.call n) = s.view :=
  view_leave hl ((errand_call (stageOf_of_get? hc)).trans hnone)

/-! ## Every change is a move of the view

An event that completes a frame is told apart by the stage of its task (`course_of_posted`,
`course_of_refused`). All others put nothing on the wire, and for them the case analysis on `Change`
is made once. -/

theorem posted_call (hn : s.stageOf n = some stage) :
    s.posted (.step (.call n)) = stage.posted n := by
  rw [posted, hn]
  rfl

theorem posted_refusal {stage : RefusalStage} (hn : s.refusals.get? n = some stage) :
    s.posted (.step (.refusal n)) = stage.posted n := by
  rw [posted, hn]
  rfl

theorem running_of_welcome (h : s.welcome = .ok ()) : s.state = .running ∧ s.hungUp = false := by
  unfold welcome at h
  split at h
  · next hstate =>
    refine ⟨hstate, ?_⟩
    split at h
    · cases h
    · next hup => exact Bool.eq_false_iff.mpr hup
  · cases h

theorem hungUp_of_not_welcome {error : SessionError} (h : s.welcome = .error error)
    (hstate : s.state = .running) : s.hungUp = true := by
  rw [welcome, hstate] at h
  cases hup : s.hungUp with
  | true => rfl
  | false =>
    rw [hup] at h
    cases h

theorem error_of_not_welcome {error : SessionError} (h : s.welcome = .error error) :
    error = .closed ∨ error = .notRunning s.state := by
  unfold welcome at h
  split at h
  · split at h
    · exact .inl (Except.error.inj h).symm
    · cases h
  · exact .inr (Except.error.inj h).symm

/-- A step of call `n` after which it is at another stage, and the view is as that stage has it. -/
theorem moved_course {k : View} {next : Stage} {hs : List Happening}
    (hn : s.stageOf n = some stage) (heq : s'.view = k.put n (some next))
    (hm : s.view.Moves n stage hs [] k next) :
    s.view.Course (.step (.call n)) hs [] s'.view :=
  heq ▸ .moved hn hm

theorem opened_course {ask : Ask} (hn : s.stageOf n = some (.fresh ask)) :
    s.view.Course (.step (.call n)) [] [] (s.openCall n ask).view := by
  -- Requests, notifications and document events begin alike.
  have htraffic : ask.isTraffic = true → (s.openCall n ask = match s.welcome with
      | .ok _ => s.moveCall n (.admitted ask)
      | .error e => s.finishCall n (.failed e)) →
      s.view.Course (.step (.call n)) [] [] (s.openCall n ask).view := by
    intro hask heq
    cases hw : s.welcome with
    | ok u =>
      obtain ⟨hstate, hup⟩ := running_of_welcome hw
      rw [hw] at heq
      exact moved_course hn ((congrArg view heq).trans (view_moveCall rfl hn)) (.admits hask hstate hup)
    | error e =>
      rw [hw] at heq
      exact moved_course hn ((congrArg view heq).trans (view_moveCall rfl hn))
        (.rejects hask (hungUp_of_not_welcome hw) (error_of_not_welcome hw))
  cases ask with
  | opening => exact moved_course hn (view_moveCall rfl hn) .opens
  | stop =>
    cases hstate : s.state with
    | stopped =>
      have heq : (s.openCall n .stop).view = s.view.put n (some (.over .stopped)) := by
        rw [openCall, hstate]
        exact view_moveCall rfl hn
      exact moved_course hn heq (.stopsIdle (.inl hstate))
    | stopping =>
      have heq : (s.openCall n .stop).view = s.view.put n (some (.over .stopped)) := by
        rw [openCall, hstate]
        exact view_moveCall rfl hn
      exact moved_course hn heq (.stopsIdle (.inr hstate))
    | running =>
      have heq : (s.openCall n .stop).view = View.put { s.view with state := .stopping } n
          (some (.draining .running (s.after s.settings.drainWindow) s.now)) := by
        rw [openCall, hstate]
        exact view_moveCall rfl hn
      exact moved_course hn heq (.halts hstate (.inl rfl))
    | starting =>
      have heq : (s.openCall n .stop).view = View.put { s.view with state := .stopping } n
          (some (.draining .starting (s.after s.settings.drainWindow) s.now)) := by
        rw [openCall, hstate]
        exact view_moveCall rfl hn
      exact moved_course hn heq (.halts hstate (.inr rfl))
  | request method params | notify method params | document event => exact htraffic rfl rfl

theorem proceeded_course {ask : Ask} (hn : s.stageOf n = some (.admitted ask)) :
    s.view.Course (.step (.call n)) [] [] (s.proceed n ask).view := by
  cases ask with
  | opening | stop => exact .quiet (List.forall_mem_nil _)
  | request method params => exact moved_course hn (view_moveCall rfl hn) .asks
  | notify method params => exact moved_course hn (view_moveCall rfl hn) (.tells rfl)
  | document event =>
    cases ho : s.documents.offer s.filter event with
    | mk routed documents =>
      cases routed with
      | forwarded =>
        have heq : (s.proceed n (.document event)).view = s.view.put n (some (.working
            (.carrying none (.fresh (Rpc.Notification.make event.method (some event.params)).payload))
            none (.message (.routed .forwarded)))) := by
          rw [proceed, ho]
          exact view_moveCall rfl hn
        exact moved_course hn heq (.tells rfl)
      | ignored =>
        have heq : (s.proceed n (.document event)).view =
            s.view.put n (some (.over (.routed .ignored))) := by
          rw [proceed, ho]
          exact view_moveCall rfl hn
        exact moved_course hn heq .ignores

theorem looked_course {previous : SessionState} {deadline wakeAt : Nat}
    (hn : s.stageOf n = some (.draining previous deadline wakeAt)) :
    s.view.Course (.step (.call n)) [] [] (s.drainCheck n previous deadline).view := by
  rw [drainCheck]
  split
  · exact moved_course hn (view_moveCall rfl hn) .looks
  · split <;> exact moved_course hn (view_moveCall rfl hn) .drains

theorem head_of_holdsWriter {t : Task} (h : s.holdsWriter t = true) :
    s.view.queue.head? = some t := eq_of_beq h

/-- A step of sending on behalf of call `n`, within a piece of work that is for some purpose. -/
theorem Sends.works {sending next : Sending} (id : Option Nat) (purpose : Purpose)
    (h : Sends s (.call n) sending (.going mid next)) :
    s.view.Works n (.carrying id sending) [] [] mid.view (.carrying id next) purpose := by
  cases h with
  | joins => exact .joins
  | takes hhead hwriter => exact .takes (head_of_holdsWriter hhead) hwriter

theorem goesOn_of_blocked {mailbox : Option Reply} {work : Work}
    (h : s.workStep n mailbox work = .blocked) : work.goesOn = false := by
  cases work with
  | send sending =>
    cases sending with
    | fresh payload => cases h
    | _ => rfl
  | exchange exchange =>
    cases exchange with
    | fresh method params => cases h
    | registered request id =>
      cases hup : s.hungUp <;> simp [workStep, exchangeStep, hup] at h
    | sending id sending =>
      cases sending with
      | fresh payload => cases h
      | _ => rfl
    | awaiting id => rfl

theorem Closes.view_going {closing next : Closing} (h : Closes s n closing mid (some next)) :
    s.view.Shuts n closing mid.view next := by
  cases h with
  | joins => exact .joins
  | takes hhead =>
    refine .takes (head_of_holdsWriter hhead) ?_
    cases s.writer <;> simp
  | shuts => exact .shuts
  | aborts => exact .aborts
  | joined hreader => exact .joined hreader

/-- The last step of closing the stream gives up requests; the view stays as it is. -/
theorem Closes.view_finished {closing : Closing} (h : Closes s n closing mid none) :
    closing = .abandoning ∧ mid.view = s.view := by
  cases h with
  | abandons => exact ⟨rfl, view_abandonPending s⟩

theorem heard_of_mem_heardIn {read : Except Rpc.MessageError Rpc.Message} {x : Happening}
    (h : x ∈ heardIn read) : ∃ r, x = .heard r := by
  unfold heardIn at h
  split at h
  · exact ⟨_, List.mem_singleton.mp h⟩
  · cases h

theorem poured_course (id : Option Nat) {payload rest rest' : List UInt8} {deadline : Option Nat}
    {count : Nat}
    (hn : s.stageOf n = some (.working (.carrying id (.writing payload rest)) deadline purpose))
    (hmid : mid.view = s.view) :
    s.view.Course (.accept (.call n) count) [] [] (mid.moveCall n
      (.working (.carrying id (.writing payload rest')) deadline purpose)).view := by
  rw [view_moveCall hmid hn]
  exact .poured id hn

theorem dropped_course (hn : s.stageOf n = some stage)
    (hmid : mid.view = s.view.leave (.call n)) :
    s.view.Course (.drop n) [] [] (Session.view { mid with calls := mid.calls.erase n }) := by
  rw [view_eraseCall, hmid]
  exact .dropped hn

/-- A piece of work of call `n` ends, and with it what the call has to do with the writer. -/
theorem ended_course {work : Work} {deadline : Option Nat} {mailbox : Option Reply}
    {result : Except SessionError Json} {hs : List Happening}
    (hc : s.At n (.working work deadline purpose) mailbox)
    (hmid : mid.view = s.view.leave (.call n))
    (he : s.view.Ends n work hs [] (s.view.leave (.call n)) result purpose) :
    s.view.Course (.step (.call n)) hs [] (mid.finishWork n deadline purpose result).view := by
  rw [view_finishWork hmid (stageOf_of_get? hc)]
  exact .moved (stageOf_of_get? hc) (.ends he)

theorem refused_course (id : Option Nat) {payload rest : List UInt8} {deadline : Option Nat}
    {mailbox : Option Reply} {cause : IoError}
    (hc : s.At n (.working (.carrying id (.writing payload rest)) deadline purpose) mailbox)
    (hmid : mid.view = s.view.leave (.call n)) :
    s.view.Course (.refuse (.call n) cause)
      (id.toList.map fun id => .resolved n id (.error (.transport (.io cause)))) []
      (mid.finishWork n deadline purpose (.error (.transport (.io cause)))).view := by
  have hsettle : (s.view.leave (.call n)).settle purpose (.error (.transport (.io cause))) =
      s.view.leave (.call n) := by cases purpose <;> rfl
  rw [view_finishWork hmid (stageOf_of_get? hc), hsettle]
  exact .refused id (stageOf_of_get? hc)

theorem Change.course_of_nothing_posted {e : Event} {hs : List Happening} (h : Change s e hs s')
    (hl : Lined s) (hout : s.posted e = []) : s.view.Course e hs [] s'.view := by
  cases h with
  | idle | refusalBegun hr | refusalTaken hs => exact .quiet (List.forall_mem_nil _)
  | outside hnow => exact .elapsed hnow
  | @called n ask hc =>
    have hnone : s.stageOf n = none := by
      rw [Session.stageOf, hc]
      rfl
    rw [view_setCall]
    exact .called hnone
  | opened hc => exact opened_course (stageOf_of_get? hc)
  | proceeded hc => exact proceeded_course (stageOf_of_get? hc)
  | looked hc hw => exact looked_course (stageOf_of_get? hc)
  | leaves hc hup =>
    have hn := stageOf_of_get? hc
    exact moved_course hn (view_moveCall rfl hn) (.departs hup)
  | ends hc hup =>
    have hn := stageOf_of_get? hc
    exact moved_course hn (view_moveCall rfl hn) (.quits hup)
  | @registered n method params deadline purpose mailbox hc =>
    have heq := view_setCall { s with
      ids := ⟨s.ids.next + 1⟩, pending := s.pending.set s.ids.next n } n
      ⟨.working (.exchange (.registered ⟨s.ids.next, method, params⟩ s.ids.next)) deadline purpose,
        none⟩
    exact moved_course (stageOf_of_get? hc) heq (.works .registers)
  | tested hc hup =>
    have hn := stageOf_of_get? hc
    exact moved_course hn (view_moveCall rfl hn) (.works (.tests hup))
  | foundHungUp hc hup =>
    exact ended_course hc (view_leave_call hl hc rfl).symm (.hungUp hup)
  | @sends n id sending next deadline purpose mailbox mid hc hs =>
    have hn := (stageOf_congr hs.calls_going n).trans (stageOf_of_get? hc)
    exact moved_course (stageOf_of_get? hc) (view_moveCall rfl hn)
      (.works (hs.works (some id) purpose))
  | sent hc hs =>
    cases hs with
    | written =>
      rw [posted_call (stageOf_of_get? hc)] at hout
      cases hout
  | unsent hc hs =>
    cases hs with
    | closed hhead hwriter =>
      exact ended_course hc rfl (.gone (some _) (head_of_holdsWriter hhead) hwriter)
  | replied hc => exact ended_course hc (view_leave_call hl hc rfl).symm .replied
  | @messageSends n sending next deadline purpose mailbox mid hc hs =>
    have hn := (stageOf_congr hs.calls_going n).trans (stageOf_of_get? hc)
    exact moved_course (stageOf_of_get? hc) (view_moveCall rfl hn)
      (.works (hs.works none purpose))
  | messageSent hc hs =>
    cases hs with
    | closed hhead hwriter =>
      exact ended_course hc rfl (.gone none (head_of_holdsWriter hhead) hwriter)
    | written =>
      rw [posted_call (stageOf_of_get? hc)] at hout
      cases hout
  | @expired n deadline work purpose mailbox hc hb hd =>
    have hn := stageOf_of_get? hc
    exact moved_course hn (view_expire (view_dropWork ..) hn) (.expires (goesOn_of_blocked hb) hd)
  | givesUp hc hs =>
    have hn := stageOf_of_get? hc
    exact moved_course hn (view_moveCall rfl ((hs.stageOf _).trans hn)) (.givesUp hs.view_going)
  | gaveUp hc hs =>
    obtain ⟨rfl, hmid⟩ := hs.view_finished
    have hn := stageOf_of_get? hc
    exact moved_course hn (view_moveCall (view_setState hmid _) hn) .gaveUp
  | stops hc hs =>
    have hn := stageOf_of_get? hc
    exact moved_course hn (view_moveCall rfl ((hs.stageOf _).trans hn)) (.closes hs.view_going)
  | stopped hc hs =>
    obtain ⟨rfl, hmid⟩ := hs.view_finished
    have hn := stageOf_of_get? hc
    exact moved_course hn (view_finishStop hmid hn) .closed
  | @read payload inbox hread habort hrec =>
    have heq : (Session.handle { s with inbox } payload).view = s.view := view_handle _ payload
    exact heq ▸ .quiet fun x hx => heard_of_mem_heardIn hx
  | streamEnded hread | readerAborted hread habort => exact .reader (by rw [view, hread]; simp) id
  | marked hread => exact .reader (by rw [view, hread]; simp) fun _ => rfl
  | @cleared log hread =>
    have heq : Session.view { s.abandonPending with reader := .ended, log } =
        { s.abandonPending.view with reader := .ended } := rfl
    rw [view_abandonPending] at heq
    exact heq ▸ .reader (by rw [view, hread]; simp) id
  | refusalSends hr hs =>
    cases hs with
    | joins => exact .refusalJoins
    | takes hhead hwriter => exact .quiet (List.forall_mem_nil _)
  | refusalSent hr hs =>
    cases hs with
    | closed hhead hwriter => exact .refusalLeaves
    | written =>
      rw [posted_refusal hr] at hout
      cases hout
  | @taken n count payload rest stage mailbox hc hs =>
    obtain ⟨deadline, purpose, mailbox', ⟨id, hc'⟩ | hc'⟩ := sendingOf_call hs
    · obtain ⟨rfl, -⟩ := Call.mk.inj (Option.some.inj (hc.symm.trans hc'))
      exact poured_course (some id) (stageOf_of_get? hc) rfl
    · obtain ⟨rfl, -⟩ := Call.mk.inj (Option.some.inj (hc.symm.trans hc'))
      exact poured_course none (stageOf_of_get? hc) rfl
  | exchangeRefused hc => exact refused_course (some _) hc rfl
  | messageRefused hc => exact refused_course none hc rfl
  | refusalRefused hs => exact .refusalLeaves
  | @workDropped n work deadline purpose mailbox hc =>
    rw [← calls_dropWork s (.call n) work]
    exact dropped_course (stageOf_of_get? hc) (view_dropWork ..)
  | closingDropped hc hst => exact dropped_course (stageOf_of_get? hc) rfl
  | dropped hc hw hst =>
    have hstays := view_leave_call hl hc (errand_of_not_waiting hw hst)
    exact dropped_course (stageOf_of_get? hc) hstays.symm

theorem course_of_posted (hn : s.stageOf n = some stage) (hout : stage.posted n ≠ []) :
    s.view.Course (.step (.call n)) (s.happenings (.step (.call n))) (stage.posted n)
      (s.apply (.step (.call n))).view := by
  obtain ⟨mailbox, hc⟩ := exists_at hn
  unfold Stage.posted at hout
  split at hout
  · next id payload deadline purpose =>
    have hhap : s.happenings (.step (.call n)) = [] := by
      rw [happenings_exchange hc rfl]
      rfl
    have heq : (s.apply (.step (.call n))).view = ((s.view.leave (.call n)).post payload).put n
        (some (.working (.exchange (.awaiting id)) deadline purpose)) := by
      rw [apply_of_going hc rfl]
      exact view_moveCall rfl hn
    rw [hhap, heq]
    exact .moved hn (.works .written)
  · next payload deadline purpose =>
    have hhap : s.happenings (.step (.call n)) = [] := by simp [happenings, hc]
    have heq : (s.apply (.step (.call n))).view =
        (((s.view.leave (.call n)).post payload).settle purpose (.ok .null)).put n
          (some (purpose.next s.settings.reads deadline (.ok .null))) := by
      rw [apply_of_finished hc rfl]
      exact view_finishWork rfl hn
    rw [hhap, heq]
    exact .moved hn (.ends .written)
  · exact absurd rfl hout

theorem course_of_refused {stage : RefusalStage} (hn : s.refusals.get? n = some stage)
    (hout : stage.posted n ≠ []) :
    s.view.Course (.step (.refusal n)) (s.happenings (.step (.refusal n))) (stage.posted n)
      (s.apply (.step (.refusal n))).view := by
  unfold RefusalStage.posted at hout
  split at hout
  · next payload =>
    have heq : (s.apply (.step (.refusal n))).view =
        (s.view.leave (.refusal n)).post payload := by
      simp only [apply, step, refusalStep, hn, sendStep, Option.getD_some]
      rfl
    rw [heq]
    exact .refusalWritten
  · exact absurd rfl hout

/-- Whatever happens to a session, its view makes one of the moves. -/
theorem course (hl : Lined s) (e : Event) :
    s.view.Course e (s.happenings e) (s.posted e) (s.apply e).view := by
  by_cases hout : s.posted e = []
  · rw [hout]
    exact (apply_change s e).course_of_nothing_posted hl hout
  · unfold posted at hout
    split at hout
    · next n =>
      cases hn : s.stageOf n with
      | none => rw [hn] at hout; exact absurd rfl hout
      | some stage =>
        rw [hn] at hout
        rw [posted_call hn]
        exact course_of_posted hn hout
    · next n =>
      cases hn : s.refusals.get? n with
      | none => rw [hn] at hout; exact absurd rfl hout
      | some stage =>
        rw [hn] at hout
        rw [posted_refusal hn]
        exact course_of_refused hn hout
    · exact absurd rfl hout

end Session

end LanguageClient
