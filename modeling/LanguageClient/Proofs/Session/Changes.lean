import LanguageClient.Proofs.Session.Requests
import LanguageClient.Session.Step

/-!
# Everything that can happen to a session

`Session.apply` says what an event makes of a session. Read backwards it says what can have
happened, and that is what proofs about sessions want to know. `Change s e hs s'` lists the ways in
which event `e` leads from `s` to `s'`, with the happenings `hs` that matter to requests, and
`apply_change` says that there are no others. Every invariant of sessions is then a case analysis on
`Change`.
-/

namespace LanguageClient

def Stage.isWorking : Stage → Bool
  | .working _ _ _ => true
  | _ => false

/-- Whether a call at this stage waits for the writer in order to close the stream. -/
def Stage.waitsToClose : Stage → Bool
  | .givingUp .queued _ | .ending .queued _ => true
  | _ => false

namespace Session

/-! ## What happens to requests

The happenings of an event are read off the session before it, so the record of a run is a function
of the run (`journal`) and not a field that the program would have to keep. -/

def readBy (s : Session) : Event → Option (Except Rpc.MessageError Rpc.Message)
  | .step .reader =>
    match s.reader, s.readerAborted, Frame.receive s.inbox with
    | .reading, false, (.payload payload, _) => some (Rpc.Message.ofPayload payload)
    | _, _, _ => none
  | _ => none

/-- What happens when something is read: only responses matter to requests. -/
def heardIn : Except Rpc.MessageError Rpc.Message → List Happening
  | .ok (.response response) => [.heard response]
  | _ => []

/-- What event `e` makes happen. A request is registered by the first step of an exchange, and it
comes to a result by the last one, or because the stream refuses what it is writing. -/
def happenings (s : Session) (e : Event) : List Happening :=
  match e with
  | .step .reader =>
    match s.readBy e with
    | some read => heardIn read
    | none => []
  | .step (.call n) =>
    match s.calls.get? n with
    | some { stage := .working (.exchange (.fresh _ _)) _ _, .. } => [.registered n s.ids.next]
    | some { stage := .working (.exchange exchange) _ _, mailbox } =>
      match exchangeId exchange, s.exchangeStep n mailbox exchange with
      | some id, .finished _ result => [.resolved n id result]
      | _, _ => []
    | _ => []
  | .refuse (.call n) cause =>
    match s.calls.get? n with
    | some { stage := .working (.exchange (.sending id (.writing _ _))) _ _, .. } =>
      [.resolved n id (.error (.transport (.io cause)))]
    | _ => []
  | _ => []

def journal (s : Session) : List Event → List Happening
  | [] => []
  | e :: events => s.happenings e ++ (s.apply e).journal events

/-! ## Sending and closing

The two procedures that calls and refusals share, each as a relation with one constructor for
everything that a step can find. -/

inductive Sends (s : Session) (t : Task) : Sending → Progress Sending → Prop where
  | joins {payload : List UInt8} :
      Sends s t (.fresh payload) (.going (s.joinQueue t) (.queued payload))
  | waits {payload : List UInt8} (h : s.holdsWriter t = false) :
      Sends s t (.queued payload) .blocked
  | takes {payload : List UInt8} (h : s.holdsWriter t = true) (hw : s.writer = true) :
      Sends s t (.queued payload) (.going s (.writing payload (Frame.encode payload)))
  | closed {payload : List UInt8} (h : s.holdsWriter t = true) (hw : s.writer = false) :
      Sends s t (.queued payload) (.finished (s.leaveQueue t) (.error .closed))
  | written {payload : List UInt8} :
      Sends s t (.writing payload [])
        (.finished { s.leaveQueue t with sent := s.sent ++ [payload] } (.ok .null))
  | pours {payload rest : List UInt8} (h : rest ≠ []) : Sends s t (.writing payload rest) .blocked

theorem sendStep_sends (s : Session) (t : Task) (sending : Sending) :
    Sends s t sending (s.sendStep t sending) := by
  cases sending with
  | fresh payload => exact .joins
  | queued payload =>
    rw [sendStep]
    cases h : s.holdsWriter t with
    | false => exact .waits h
    | true =>
      cases hw : s.writer with
      | false => exact .closed h hw
      | true => exact .takes h hw
  | writing payload rest =>
    cases rest with
    | nil => exact .written
    | cons b rest => exact .pours nofun

inductive Closes (s : Session) (n : Nat) : Closing → Session → Option Closing → Prop where
  | joins : Closes s n .fresh (s.joinQueue (.call n)) (some .queued)
  | takes (h : s.holdsWriter (.call n) = true) :
      Closes s n .queued { s.leaveQueue (.call n) with writer := false }
        (some (if s.writer then .shutting else .aborting))
  | shuts {log : List Log.Event} :
      Closes s n .shutting { s with closed := true, log := log } (some .aborting)
  | aborts : Closes s n .aborting { s with readerAborted := true } (some .joining)
  | joined (h : s.reader = .ended) : Closes s n .joining s (some .abandoning)
  | abandons {log : List Log.Event} :
      Closes s n .abandoning { s.abandonPending with log := log } none

theorem closeStep_closes {s s' : Session} {n : Nat} {closing : Closing} {next : Option Closing}
    (h : s.closeStep n closing = some (s', next)) : Closes s n closing s' next := by
  cases closing with
  | fresh =>
    obtain ⟨rfl, rfl⟩ := Prod.mk.inj (Option.some.inj h)
    exact .joins
  | queued =>
    rw [closeStep] at h
    split at h
    · next hw =>
      obtain ⟨rfl, rfl⟩ := Prod.mk.inj (Option.some.inj h)
      exact .takes hw
    · cases h
  | shutting =>
    obtain ⟨rfl, rfl⟩ := Prod.mk.inj (Option.some.inj h)
    cases s.closeFailure <;> exact .shuts
  | aborting =>
    obtain ⟨rfl, rfl⟩ := Prod.mk.inj (Option.some.inj h)
    exact .aborts
  | joining =>
    rw [closeStep] at h
    split at h
    · next hr =>
      obtain ⟨rfl, rfl⟩ := Prod.mk.inj (Option.some.inj h)
      exact .joined hr
    · cases h
  | abandoning =>
    rw [closeStep] at h
    split at h <;> obtain ⟨rfl, rfl⟩ := Prod.mk.inj (Option.some.inj h) <;> exact .abandons

theorem closeStep_abandoning (s : Session) (n : Nat) :
    ∃ log, s.closeStep n .abandoning = some ({ s.abandonPending with log }, none) := by
  rw [closeStep]
  dsimp only
  split <;> exact ⟨_, rfl⟩

/-! ## Changes -/

/-- Call `n` stands at `stage`, with `mailbox` in its mailbox. -/
abbrev At (s : Session) (n : Nat) (stage : Stage) (mailbox : Option Reply) : Prop :=
  s.calls.get? n = some ⟨stage, mailbox⟩

/-- The ways in which an event changes a session. Where a branch is short it is written out; where
the program has a function for it, the function stands here and its own lemmas say the rest. -/
inductive Change (s : Session) : Event → List Happening → Session → Prop where
  | idle {e : Event} : Change s e [] s
  | outside {e : Event} {now : Nat} {inbox : Frame.Stream} {notices : List Rpc.Notification}
      {receiver : Receiver} (hnow : s.now ≤ now) :
      Change s e [] { s with now, inbox, notices, receiver }
  -- A call from beginning to end.
  | called {n : Nat} {ask : Ask} (hc : s.calls.get? n = none) :
      Change s (.call n ask) [] { s with calls := s.calls.set n { stage := .fresh ask } }
  | opened {n : Nat} {ask : Ask} {mailbox : Option Reply} (hc : s.At n (.fresh ask) mailbox) :
      Change s (.step (.call n)) [] (s.openCall n ask)
  | proceeded {n : Nat} {ask : Ask} {mailbox : Option Reply} (hc : s.At n (.admitted ask) mailbox) :
      Change s (.step (.call n)) [] (s.proceed n ask)
  | looked {n deadline wakeAt : Nat} {previous : SessionState} {mailbox : Option Reply}
      (hc : s.At n (.draining previous deadline wakeAt) mailbox) (hw : wakeAt ≤ s.now) :
      Change s (.step (.call n)) [] (s.drainCheck n previous deadline)
  | leaves {n : Nat} {mailbox : Option Reply} (hc : s.At n (.drained .running) mailbox)
      (hup : s.hungUp = false) :
      Change s (.step (.call n)) []
        (s.startExchange n "shutdown" none (some (s.after s.settings.shutdownTimeout)) .shutdown)
  | ends {n : Nat} {previous : SessionState} {mailbox : Option Reply}
      (hc : s.At n (.drained previous) mailbox) (hup : previous = .running → s.hungUp = true) :
      Change s (.step (.call n)) [] (s.moveCall n (.ending .fresh (.ok ())))
  -- An exchange.
  | registered {n : Nat} {method : String} {params : Option Json} {deadline : Option Nat}
      {purpose : Purpose} {mailbox : Option Reply}
      (hc : s.At n (.working (.exchange (.fresh method params)) deadline purpose) mailbox) :
      Change s (.step (.call n)) [.registered n s.ids.next]
        { s with
          ids := ⟨s.ids.next + 1⟩
          pending := s.pending.set s.ids.next n
          calls := s.calls.set n ⟨.working (.exchange (.registered ⟨s.ids.next, method, params⟩
            s.ids.next)) deadline purpose, none⟩ }
  | tested {n id : Nat} {request : Rpc.Request} {deadline : Option Nat} {purpose : Purpose}
      {mailbox : Option Reply} {log : List Log.Event}
      (hc : s.At n (.working (.exchange (.registered request id)) deadline purpose) mailbox)
      (hup : s.hungUp = false) :
      Change s (.step (.call n)) []
        (Session.moveCall { s with log := log } n
          (.working (.exchange (.sending id (.fresh request.payload))) deadline purpose))
  | foundHungUp {n id : Nat} {request : Rpc.Request} {deadline : Option Nat} {purpose : Purpose}
      {mailbox : Option Reply}
      (hc : s.At n (.working (.exchange (.registered request id)) deadline purpose) mailbox)
      (hup : s.hungUp = true) :
      Change s (.step (.call n)) [.resolved n id (.error .closed)]
        ((s.unregister id).finishWork n deadline purpose (.error .closed))
  | sends {n id : Nat} {sending next : Sending} {deadline : Option Nat} {purpose : Purpose}
      {mailbox : Option Reply} {mid : Session}
      (hc : s.At n (.working (.exchange (.sending id sending)) deadline purpose) mailbox)
      (hs : Sends s (.call n) sending (.going mid next)) :
      Change s (.step (.call n)) []
        (mid.moveCall n (.working (.exchange (.sending id next)) deadline purpose))
  | sent {n id : Nat} {sending : Sending} {deadline : Option Nat} {purpose : Purpose} {value : Json}
      {mailbox : Option Reply} {mid : Session}
      (hc : s.At n (.working (.exchange (.sending id sending)) deadline purpose) mailbox)
      (hs : Sends s (.call n) sending (.finished mid (.ok value))) :
      Change s (.step (.call n)) []
        (mid.moveCall n (.working (.exchange (.awaiting id)) deadline purpose))
  | unsent {n id : Nat} {sending : Sending} {deadline : Option Nat} {purpose : Purpose}
      {error : SessionError} {mailbox : Option Reply} {mid : Session}
      (hc : s.At n (.working (.exchange (.sending id sending)) deadline purpose) mailbox)
      (hs : Sends s (.call n) sending (.finished mid (.error error))) :
      Change s (.step (.call n)) [.resolved n id (.error error)]
        ((mid.unregister id).finishWork n deadline purpose (.error error))
  | replied {n id : Nat} {deadline : Option Nat} {purpose : Purpose} {reply : Reply}
      (hc : s.At n (.working (.exchange (.awaiting id)) deadline purpose) (some reply)) :
      Change s (.step (.call n)) [.resolved n id reply.result]
        ((s.unregister id).finishWork n deadline purpose reply.result)
  -- A message, and work that takes too long.
  | messageSends {n : Nat} {sending next : Sending} {deadline : Option Nat} {purpose : Purpose}
      {mailbox : Option Reply} {mid : Session}
      (hc : s.At n (.working (.send sending) deadline purpose) mailbox)
      (hs : Sends s (.call n) sending (.going mid next)) :
      Change s (.step (.call n)) [] (mid.moveCall n (.working (.send next) deadline purpose))
  | messageSent {n : Nat} {sending : Sending} {deadline : Option Nat} {purpose : Purpose}
      {result : Except SessionError Json} {mailbox : Option Reply} {mid : Session}
      (hc : s.At n (.working (.send sending) deadline purpose) mailbox)
      (hs : Sends s (.call n) sending (.finished mid result)) :
      Change s (.step (.call n)) [] (mid.finishWork n deadline purpose result)
  | expired {n deadline : Nat} {work : Work} {purpose : Purpose} {mailbox : Option Reply}
      (hc : s.At n (.working work (some deadline) purpose) mailbox)
      (hb : s.workStep n mailbox work = .blocked) (hd : deadline ≤ s.now) :
      Change s (.step (.call n)) [] ((s.dropWork (.call n) work).expire n purpose)
  -- Closing the stream.
  | givesUp {n : Nat} {closing next : Closing} {error : SessionError} {mailbox : Option Reply}
      {mid : Session} (hc : s.At n (.givingUp closing error) mailbox)
      (hs : Closes s n closing mid (some next)) :
      Change s (.step (.call n)) [] (mid.moveCall n (.givingUp next error))
  | gaveUp {n : Nat} {closing : Closing} {error : SessionError} {mailbox : Option Reply}
      {mid : Session} (hc : s.At n (.givingUp closing error) mailbox)
      (hs : Closes s n closing mid none) :
      Change s (.step (.call n)) [] ((mid.setState .stopped).finishCall n (.failed error))
  | stops {n : Nat} {closing next : Closing} {result : Except SessionError Unit}
      {mailbox : Option Reply} {mid : Session} (hc : s.At n (.ending closing result) mailbox)
      (hs : Closes s n closing mid (some next)) :
      Change s (.step (.call n)) [] (mid.moveCall n (.ending next result))
  | stopped {n : Nat} {closing : Closing} {result : Except SessionError Unit}
      {mailbox : Option Reply} {mid : Session} (hc : s.At n (.ending closing result) mailbox)
      (hs : Closes s n closing mid none) :
      Change s (.step (.call n)) [] (mid.finishStop n result)
  -- The reader.
  | read {payload : List UInt8} {inbox : Frame.Stream} (hread : s.reader = .reading)
      (habort : s.readerAborted = false) (hrec : Frame.receive s.inbox = (.payload payload, inbox)) :
      Change s (.step .reader) (heardIn (Rpc.Message.ofPayload payload))
        ({ s with inbox }.handle payload)
  | streamEnded {inbox : Frame.Stream} {log : List Log.Event} (hread : s.reader = .reading) :
      Change s (.step .reader) [] { s with inbox, log, reader := .marking }
  | readerAborted (hread : s.reader = .reading) (habort : s.readerAborted = true) :
      Change s (.step .reader) [] { s with reader := .ended }
  | marked (hread : s.reader = .marking) :
      Change s (.step .reader) [] { s with hungUp := true, reader := .clearing }
  | cleared {log : List Log.Event} (hread : s.reader = .clearing) :
      Change s (.step .reader) [] { s.abandonPending with reader := .ended, log := log }
  -- Refusals of server requests.
  | refusalBegun {n : Nat} {request : Rpc.ServerRequest} {log : List Log.Event}
      (hr : s.refusals.get? n = some (.fresh request)) :
      Change s (.step (.refusal n)) []
        { s with
          refusals := s.refusals.set n (.sending (.fresh (refusalOf request).payload)), log }
  | refusalSends {n : Nat} {sending next : Sending} {mid : Session}
      (hr : s.refusals.get? n = some (.sending sending))
      (hs : Sends s (.refusal n) sending (.going mid next)) :
      Change s (.step (.refusal n)) []
        { mid with refusals := mid.refusals.set n (.sending next) }
  | refusalSent {n : Nat} {sending : Sending} {result : Except SessionError Json} {mid : Session}
      {log : List Log.Event} (hr : s.refusals.get? n = some (.sending sending))
      (hs : Sends s (.refusal n) sending (.finished mid result)) :
      Change s (.step (.refusal n)) [] { mid with refusals := mid.refusals.erase n, log }
  -- The stream takes octets or refuses them.
  | taken {n count : Nat} {payload rest : List UInt8} {stage : Stage} {mailbox : Option Reply}
      (hc : s.At n stage mailbox) (hs : s.sendingOf (.call n) = some (.writing payload rest)) :
      Change s (.accept (.call n) count) []
        (Session.moveCall { s with wire := s.wire ++ rest.take count } n
          (replaceSending (.writing payload (rest.drop count)) stage))
  | refusalTaken {n count : Nat} {payload rest : List UInt8}
      (hs : s.sendingOf (.refusal n) = some (.writing payload rest)) :
      Change s (.accept (.refusal n) count) []
        { s with
          wire := s.wire ++ rest.take count
          refusals := s.refusals.set n (.sending (.writing payload (rest.drop count))) }
  | exchangeRefused {n id : Nat} {payload rest : List UInt8} {deadline : Option Nat}
      {purpose : Purpose} {mailbox : Option Reply} {cause : IoError}
      (hc : s.At n (.working (.exchange (.sending id (.writing payload rest))) deadline purpose)
        mailbox) :
      Change s (.refuse (.call n) cause) [.resolved n id (.error (.transport (.io cause)))]
        (((s.leaveQueue (.call n)).unregister id).finishWork n deadline purpose
          (.error (.transport (.io cause))))
  | messageRefused {n : Nat} {payload rest : List UInt8} {deadline : Option Nat}
      {purpose : Purpose} {mailbox : Option Reply} {cause : IoError}
      (hc : s.At n (.working (.send (.writing payload rest)) deadline purpose) mailbox) :
      Change s (.refuse (.call n) cause) []
        ((s.leaveQueue (.call n)).finishWork n deadline purpose (.error (.transport (.io cause))))
  | refusalRefused {n : Nat} {payload rest : List UInt8} {cause : IoError} {log : List Log.Event}
      (hs : s.sendingOf (.refusal n) = some (.writing payload rest)) :
      Change s (.refuse (.refusal n) cause) []
        { s.leaveQueue (.refusal n) with refusals := s.refusals.erase n, log }
  -- A caller loses interest.
  | workDropped {n : Nat} {work : Work} {deadline : Option Nat} {purpose : Purpose}
      {mailbox : Option Reply} (hc : s.At n (.working work deadline purpose) mailbox) :
      Change s (.drop n) []
        { s.dropWork (.call n) work with calls := s.calls.erase n }
  | closingDropped {n : Nat} {stage : Stage} {mailbox : Option Reply} (hc : s.At n stage mailbox)
      (hst : stage.waitsToClose = true) :
      Change s (.drop n) []
        { s.leaveQueue (.call n) with calls := s.calls.erase n }
  | dropped {n : Nat} {stage : Stage} {mailbox : Option Reply} {closed : Bool}
      (hc : s.At n stage mailbox) (hw : stage.isWorking = false)
      (hst : stage.waitsToClose = false) :
      Change s (.drop n) [] { s with closed, calls := s.calls.erase n }

variable {s : Session} {n : Nat}

/-! ## There are no other changes

The step functions are opened here and nowhere else, one lemma for each. -/

variable {work : Work} {deadline : Option Nat} {purpose : Purpose} {mailbox : Option Reply}

theorem blocked_change (hc : s.At n (.working work deadline purpose) mailbox)
    (hb : s.workStep n mailbox work = .blocked) :
    Change s (.step (.call n)) [] (s.apply (.step (.call n))) := by
  cases deadline with
  | none =>
    have happly : s.apply (.step (.call n)) = s := by simp [apply, step, callStep, hc, hb]
    rw [happly]
    exact .idle
  | some d =>
    by_cases hd : d ≤ s.now
    · have happly : s.apply (.step (.call n)) =
          (s.dropWork (.call n) work).expire n purpose := by
        simp [apply, step, callStep, hc, hb, hd]
      rw [happly]
      exact .expired hc hb hd
    · have happly : s.apply (.step (.call n)) = s := by simp [apply, step, callStep, hc, hb, hd]
      rw [happly]
      exact .idle

theorem apply_of_going {next : Work} {mid : Session}
    (hc : s.At n (.working work deadline purpose) mailbox)
    (hg : s.workStep n mailbox work = .going mid next) :
    s.apply (.step (.call n)) = mid.moveCall n (.working next deadline purpose) := by
  simp [apply, step, callStep, hc, hg]

theorem apply_of_finished {mid : Session} {result : Except SessionError Json}
    (hc : s.At n (.working work deadline purpose) mailbox)
    (hf : s.workStep n mailbox work = .finished mid result) :
    s.apply (.step (.call n)) = mid.finishWork n deadline purpose result := by
  simp [apply, step, callStep, hc, hf]

theorem happenings_exchange {exchange : Exchange} {id : Nat}
    (hc : s.At n (.working (.exchange exchange) deadline purpose) mailbox)
    (hid : exchangeId exchange = some id) :
    s.happenings (.step (.call n)) =
      match s.exchangeStep n mailbox exchange with
      | .finished _ result => [.resolved n id result]
      | _ => [] := by
  cases exchange with
  | fresh method params => cases hid
  | _ =>
    simp only [happenings, hc, hid]
    split <;> simp_all

theorem exchange_change {exchange : Exchange}
    (hc : s.At n (.working (.exchange exchange) deadline purpose) mailbox) :
    Change s (.step (.call n)) (s.happenings (.step (.call n))) (s.apply (.step (.call n))) := by
  cases exchange with
  | fresh method params =>
    have hhap : s.happenings (.step (.call n)) = [.registered n s.ids.next] := by
      simp [happenings, hc]
    have happly := apply_of_going hc rfl
    simp only [clearMailbox, hc, moveCall, Table.get?_set, if_true,
      Table.set_set] at happly
    rw [hhap, happly]
    exact .registered hc
  | registered request id =>
    rw [happenings_exchange hc rfl]
    by_cases hup : s.hungUp = true
    · have hstep : s.exchangeStep n mailbox (.registered request id) =
          .finished (s.unregister id) (.error .closed) := if_pos hup
      rw [hstep, apply_of_finished hc (by rw [workStep, hstep])]
      exact .foundHungUp hc hup
    · have hstep : s.exchangeStep n mailbox (.registered request id) =
          .going (s.note .debug "sending request"
            [("id", .int id), ("method", .text request.method)])
            (.sending id (.fresh request.payload)) := if_neg hup
      rw [hstep, apply_of_going hc (by rw [workStep, hstep])]
      exact .tested hc (Bool.eq_false_iff.mpr hup)
  | sending id sending =>
    rw [happenings_exchange hc rfl]
    have hsends := sendStep_sends s (.call n) sending
    cases hs : s.sendStep (.call n) sending with
    | blocked =>
      have hstep : s.exchangeStep n mailbox (.sending id sending) = .blocked := by
        rw [exchangeStep, hs]
      rw [hstep]
      exact blocked_change hc (by rw [workStep, hstep])
    | going mid next =>
      have hstep : s.exchangeStep n mailbox (.sending id sending) =
          .going mid (.sending id next) := by
        rw [exchangeStep, hs]
      rw [hstep, apply_of_going hc (by rw [workStep, hstep])]
      exact .sends hc (hs ▸ hsends)
    | finished mid result =>
      cases result with
      | ok value =>
        have hstep : s.exchangeStep n mailbox (.sending id sending) =
            .going mid (.awaiting id) := by
          rw [exchangeStep, hs]
        rw [hstep, apply_of_going hc (by rw [workStep, hstep])]
        exact .sent hc (hs ▸ hsends)
      | error e =>
        have hstep : s.exchangeStep n mailbox (.sending id sending) =
            .finished (mid.unregister id) (.error e) := by
          rw [exchangeStep, hs]
        rw [hstep, apply_of_finished hc (by rw [workStep, hstep])]
        exact .unsent hc (hs ▸ hsends)
  | awaiting id =>
    rw [happenings_exchange hc rfl]
    cases mailbox with
    | none => exact blocked_change hc rfl
    | some reply =>
      have hstep : s.exchangeStep n (some reply) (.awaiting id) =
          .finished (s.unregister id) reply.result := rfl
      rw [hstep, apply_of_finished hc (by rw [workStep, hstep])]
      exact .replied hc

theorem send_change {sending : Sending}
    (hc : s.At n (.working (.send sending) deadline purpose) mailbox) :
    Change s (.step (.call n)) [] (s.apply (.step (.call n))) := by
  have hsends := sendStep_sends s (.call n) sending
  cases hs : s.sendStep (.call n) sending with
  | blocked => exact blocked_change hc (by rw [workStep, hs])
  | going mid next =>
    rw [apply_of_going hc (by rw [workStep, hs])]
    exact .messageSends hc (hs ▸ hsends)
  | finished mid result =>
    rw [apply_of_finished hc (by rw [workStep, hs])]
    exact .messageSent hc (hs ▸ hsends)

theorem quiet_change {t : Task} (hhap : s.happenings (.step t) = [])
    (hstep : ∀ s', s.step t = some s' → Change s (.step t) [] s') :
    Change s (.step t) (s.happenings (.step t)) (s.apply (.step t)) := by
  rw [hhap]
  change Change s _ [] ((s.step t).getD s)
  cases h : s.step t with
  | none => exact .idle
  | some s' => exact hstep s' h

theorem callStep_change (s : Session) (n : Nat) :
    Change s (.step (.call n)) (s.happenings (.step (.call n))) (s.apply (.step (.call n))) := by
  cases hc : s.calls.get? n with
  | none =>
    refine quiet_change (by simp [happenings, hc]) fun s' h => ?_
    simp [step, callStep, hc] at h
  | some c =>
    obtain ⟨stage, mailbox⟩ := c
    cases stage with
    | fresh ask =>
      refine quiet_change (by simp [happenings, hc]) fun s' h => ?_
      simp only [step, callStep, hc, Option.some.injEq] at h
      exact h ▸ .opened hc
    | admitted ask =>
      refine quiet_change (by simp [happenings, hc]) fun s' h => ?_
      simp only [step, callStep, hc, Option.some.injEq] at h
      exact h ▸ .proceeded hc
    | working work deadline purpose =>
      cases work with
      | exchange exchange => exact exchange_change hc
      | send sending =>
        have hhap : s.happenings (.step (.call n)) = [] := by simp [happenings, hc]
        rw [hhap]
        exact send_change hc
    | draining previous deadline wakeAt =>
      refine quiet_change (by simp [happenings, hc]) fun s' h => ?_
      simp only [step, callStep, hc] at h
      split at h
      · next hw => exact Option.some.inj h ▸ .looked hc hw
      · cases h
    | drained previous =>
      refine quiet_change (by simp [happenings, hc]) fun s' h => ?_
      simp only [step, callStep, hc] at h
      split at h
      · next hrun =>
        obtain ⟨rfl, hup⟩ := hrun
        exact Option.some.inj h ▸ .leaves hc hup
      · next hrun =>
        refine Option.some.inj h ▸ .ends hc fun hprev => ?_
        exact Bool.not_eq_false _ |>.mp fun hup => hrun ⟨hprev, hup⟩
    | givingUp closing error =>
      refine quiet_change (by simp [happenings, hc]) fun s' h => ?_
      simp only [step, callStep, hc] at h
      split at h
      · cases h
      · next hs => exact Option.some.inj h ▸ .givesUp hc (closeStep_closes hs)
      · next hs => exact Option.some.inj h ▸ .gaveUp hc (closeStep_closes hs)
    | ending closing result =>
      refine quiet_change (by simp [happenings, hc]) fun s' h => ?_
      simp only [step, callStep, hc] at h
      split at h
      · cases h
      · next hs => exact Option.some.inj h ▸ .stops hc (closeStep_closes hs)
      · next hs => exact Option.some.inj h ▸ .stopped hc (closeStep_closes hs)
    | _ =>
      refine quiet_change (by simp [happenings, hc]) fun s' h => ?_
      simp [step, callStep, hc] at h

theorem reading_change (hread : s.reader = .reading) (habort : s.readerAborted = false) :
    Change s (.step .reader) (s.happenings (.step .reader)) (s.apply (.step .reader)) := by
  cases hrec : Frame.receive s.inbox with
  | mk received inbox =>
    cases received with
    | waiting =>
      refine quiet_change (by simp [happenings, readBy, hread, habort, hrec]) fun s' h => ?_
      simp [step, readerStep, hread, habort, hrec] at h
    | payload payload =>
      have hhap : s.happenings (.step .reader) = heardIn (Rpc.Message.ofPayload payload) := by
        simp [happenings, readBy, hread, habort, hrec]
      have happly : s.apply (.step .reader) = { s with inbox }.handle payload := by
        simp [apply, step, readerStep, hread, habort, hrec]
      rw [hhap, happly]
      exact .read hread habort hrec
    | failure e =>
      refine quiet_change (by simp [happenings, readBy, hread, habort, hrec]) fun s' h => ?_
      have hgo : ¬ s.readerAborted = true := by simp [habort]
      cases e <;> simp only [step, readerStep, hread, if_neg hgo, hrec] at h <;>
        exact Option.some.inj h ▸ .streamEnded hread

theorem readerStep_change (s : Session) :
    Change s (.step .reader) (s.happenings (.step .reader)) (s.apply (.step .reader)) := by
  cases hread : s.reader with
  | reading =>
    cases habort : s.readerAborted with
    | true =>
      refine quiet_change (by simp [happenings, readBy, hread, habort]) fun s' h => ?_
      simp only [step, readerStep, hread, if_pos habort, Option.some.injEq] at h
      exact h ▸ .readerAborted hread habort
    | false => exact reading_change hread habort
  | marking =>
    refine quiet_change (by simp [happenings, readBy, hread]) fun s' h => ?_
    simp only [step, readerStep, hread, Option.some.injEq] at h
    exact h ▸ .marked hread
  | clearing =>
    refine quiet_change (by simp [happenings, readBy, hread]) fun s' h => ?_
    simp only [step, readerStep, hread] at h
    split at h <;> exact Option.some.inj h ▸ .cleared hread
  | ended =>
    refine quiet_change (by simp [happenings, readBy, hread]) fun s' h => ?_
    simp [step, readerStep, hread] at h

theorem refusalStep_change (s : Session) (n : Nat) :
    Change s (.step (.refusal n)) (s.happenings (.step (.refusal n)))
      (s.apply (.step (.refusal n))) := by
  refine quiet_change rfl fun s' h => ?_
  simp only [step, refusalStep] at h
  split at h
  · cases h
  · next hr => exact Option.some.inj h ▸ .refusalBegun hr
  · next sending hr =>
    have hsends := sendStep_sends s (.refusal n) sending
    split at h
    · cases h
    · next mid next hs => exact Option.some.inj h ▸ .refusalSends hr (hs ▸ hsends)
    · next mid value hs =>
      have hsent : Sends s (.refusal n) sending (.finished mid (.ok value)) := hs ▸ hsends
      exact Option.some.inj h ▸ .refusalSent hr hsent
    · next mid error hs =>
      have hsent : Sends s (.refusal n) sending (.finished mid (.error error)) := hs ▸ hsends
      have hchange : ∀ log, Change s (.step (.refusal n)) []
          { mid with refusals := mid.refusals.erase n, log } := fun log => .refusalSent hr hsent
      exact Option.some.inj h ▸ hchange _

theorem sendingOf_call {sending : Sending} (h : s.sendingOf (.call n) = some sending) :
    ∃ deadline purpose mailbox,
      (∃ id, s.At n (.working (.exchange (.sending id sending)) deadline purpose) mailbox) ∨
      s.At n (.working (.send sending) deadline purpose) mailbox := by
  unfold sendingOf at h
  dsimp only at h
  split at h
  · next id _ deadline purpose mailbox hc =>
    obtain rfl := Option.some.inj h
    exact ⟨deadline, purpose, mailbox, .inl ⟨id, hc⟩⟩
  · next _ deadline purpose mailbox hc =>
    obtain rfl := Option.some.inj h
    exact ⟨deadline, purpose, mailbox, .inr hc⟩
  · cases h

theorem accept_change (s : Session) (t : Task) (count : Nat) :
    Change s (.accept t count) [] (s.accept t count) := by
  unfold accept
  split
  · next payload rest hs =>
    cases t with
    | reader => cases hs
    | refusal n => exact .refusalTaken hs
    | call n =>
      dsimp only
      cases hc : s.calls.get? n with
      | none => simp [sendingOf, hc] at hs
      | some c => exact .taken hc hs
  · exact .idle

theorem refuse_writing_change {payload rest : List UInt8}
    (h : s.sendingOf (.call n) = some (.writing payload rest)) (cause : IoError) :
    Change s (.refuse (.call n) cause) (s.happenings (.refuse (.call n) cause))
      (s.refuse (.call n) cause) := by
  obtain ⟨deadline, purpose, mailbox, ⟨id, hc⟩ | hc⟩ := sendingOf_call h
  · have hhap : s.happenings (.refuse (.call n) cause) =
        [.resolved n id (.error (.transport (.io cause)))] := by simp [happenings, hc]
    rw [hhap, refuse, h]
    simp only [hc]
    exact .exchangeRefused hc
  · have hhap : s.happenings (.refuse (.call n) cause) = [] := by simp [happenings, hc]
    rw [hhap, refuse, h]
    simp only [hc]
    exact .messageRefused hc

theorem refuse_change (s : Session) (t : Task) (cause : IoError) :
    Change s (.refuse t cause) (s.happenings (.refuse t cause)) (s.refuse t cause) := by
  by_cases hw : ∃ payload rest, s.sendingOf t = some (.writing payload rest)
  · obtain ⟨payload, rest, h⟩ := hw
    cases t with
    | reader => cases h
    | refusal n =>
      have hhap : s.happenings (.refuse (.refusal n) cause) = [] := rfl
      rw [hhap, refuse, h]
      exact .refusalRefused h
    | call n => exact refuse_writing_change h cause
  · have hstay : s.refuse t cause = s := by
      unfold refuse
      split
      · next payload rest h => exact absurd ⟨payload, rest, h⟩ hw
      · rfl
    have hhap : s.happenings (.refuse t cause) = [] := by
      cases t with
      | call n =>
        unfold happenings
        dsimp only
        split
        · next _ payload rest _ _ _ hc =>
          exact absurd ⟨payload, rest, by simp [sendingOf, hc]⟩ hw
        · rfl
      | _ => rfl
    rw [hhap, hstay]
    exact .idle

theorem drop_change (s : Session) (n : Nat) : Change s (.drop n) [] (s.dropCall n) := by
  rw [dropCall]
  cases hc : s.calls.get? n with
  | none => exact .idle
  | some c =>
    obtain ⟨stage, mailbox⟩ := c
    cases stage with
    | working work deadline purpose =>
      have hcalls : (s.dropWork (.call n) work).calls = s.calls := by
        cases work with
        | exchange exchange => cases exchange <;> rfl
        | send sending => rfl
      dsimp only
      rw [hcalls]
      exact .workDropped hc
    | givingUp closing error | ending closing result =>
      cases closing with
      | queued => exact .closingDropped hc rfl
      | _ => exact .dropped hc rfl rfl
    | _ => exact .dropped hc rfl rfl

/-- Whatever an event makes of a session, it is one of the changes. -/
theorem apply_change (s : Session) (e : Event) : Change s e (s.happenings e) (s.apply e) := by
  cases e with
  | call n ask =>
    rw [apply]
    cases hc : s.calls.get? n with
    | some c => exact .idle
    | none => exact .called hc
  | step t =>
    cases t with
    | call n => exact callStep_change s n
    | reader => exact readerStep_change s
    | refusal n => exact refusalStep_change s n
  | accept t count => exact accept_change s t count
  | refuse t cause => exact refuse_change s t cause
  | arrive bytes | endStream ending | takeNotices | fetchNotices =>
    rw [apply]
    split <;> exact .outside (Nat.le_refl _)
  | pass nanos => exact .outside (Nat.le_add_right ..)
  | drop n => exact drop_change s n
  | discardNotices => exact .outside (Nat.le_refl _)

end Session

end LanguageClient
