import LanguageClient.Session.Basic

/-!
# The steps of a session

A session moves by small steps. Each step belongs to one task (a call, the reader, or the refusal of
a server request) and is taken as a whole; between two steps of a task any other task may move. A
task that cannot take a step now is *blocked*, and `Session.step` answers nothing for it.

The steps are as small as the things that others can notice in between: registering a request,
looking whether the server has hung up, marking it as hung up and giving up the registered requests
are four separate steps. A host that runs its tasks one at a time lets a task go on until it is
blocked; such a run is just a run in which the steps of a task come in bunches.

What the outside world contributes is not a step: octets arrive, the stream takes octets or fails,
time passes, a caller loses interest. Those are the remaining `Event`s.
-/

namespace LanguageClient.Session

inductive Progress (α : Type) where
  | blocked
  | going (s : Session) (next : α)
  | finished (s : Session) (result : Except SessionError Json)

def clearMailbox (s : Session) (n : Nat) : Session :=
  match s.calls.get? n with
  | some c => { s with calls := s.calls.set n { c with mailbox := none } }
  | none => s

def unregister (s : Session) (id : Nat) : Session := { s with pending := s.pending.erase id }

/-! ## Sending and exchanging -/

/-- One step of sending. Octets leave only when the stream takes them, so writing goes on here only
once nothing is left to write. -/
def sendStep (s : Session) (t : Task) : Sending → Progress Sending
  | .fresh payload => .going (s.joinQueue t) (.queued payload)
  | .queued payload =>
    if s.holdsWriter t then
      if s.writer then .going s (.writing payload (Frame.encode payload))
      else .finished (s.leaveQueue t) (.error .closed)
    else .blocked
  | .writing payload [] =>
    .finished { s.leaveQueue t with sent := s.sent ++ [payload] } (.ok .null)
  | .writing _ (_ :: _) => .blocked

def exchangeStep (s : Session) (n : Nat) (mailbox : Option Reply) : Exchange → Progress Exchange
  | .fresh method params =>
    let (id, ids) := s.ids.take
    .going { s.clearMailbox n with ids, pending := s.pending.set id n }
      (.registered { id := id, method, params } id)
  | .registered request id =>
    if s.hungUp then .finished (s.unregister id) (.error .closed)
    else
      .going (s.note .debug "sending request" [("id", .int id), ("method", .text request.method)])
        (.sending id (.fresh request.payload))
  | .sending id sending =>
    match s.sendStep (.call n) sending with
    | .blocked => .blocked
    | .going s sending => .going s (.sending id sending)
    | .finished s (.ok _) => .going s (.awaiting id)
    | .finished s (.error e) => .finished (s.unregister id) (.error e)
  | .awaiting id =>
    match mailbox with
    | none => .blocked
    | some reply => .finished (s.unregister id) reply.result

def workStep (s : Session) (n : Nat) (mailbox : Option Reply) : Work → Progress Work
  | .exchange e =>
    match s.exchangeStep n mailbox e with
    | .blocked => .blocked
    | .going s e => .going s (.exchange e)
    | .finished s r => .finished s r
  | .send sending =>
    match s.sendStep (.call n) sending with
    | .blocked => .blocked
    | .going s sending => .going s (.send sending)
    | .finished s r => .finished s r

def exchangeId : Exchange → Option Nat
  | .fresh .. => none
  | .registered _ id => some id
  | .sending id _ => some id
  | .awaiting id => some id

/-- A piece of work is dropped in the middle: the writer is handed back or no longer waited for,
and nobody waits for the reply. What is on the wire stays there. -/
def dropWork (s : Session) (t : Task) : Work → Session
  | .exchange e =>
    match exchangeId e with
    | some id => (s.leaveQueue t).unregister id
    | none => s.leaveQueue t
  | .send _ => s.leaveQueue t

/-! ## Calls -/

def finishCall (s : Session) (n : Nat) (outcome : Outcome) : Session :=
  s.moveCall n (.over outcome)

def startMessage (s : Session) (n : Nat) (method : String) (params : Option Json)
    (deadline : Option Nat) (purpose : Purpose) : Session :=
  (s.note .debug "sending notification" [("method", .text method)]).moveCall n
    (.working (.send (.fresh (Rpc.Notification.make method params).payload)) deadline purpose)

def startExchange (s : Session) (n : Nat) (method : String) (params : Option Json)
    (deadline : Option Nat) (purpose : Purpose) : Session :=
  s.moveCall n (.working (.exchange (.fresh method params)) deadline purpose)

/-- The handshake did not succeed: the stream will be closed. -/
def giveUp (s : Session) (n : Nat) (e : SessionError) : Session :=
  (s.note .warn "handshake failed, closing stream" [("error", .shown e.message)]).moveCall n
    (.givingUp .fresh e)

def noteServer (s : Session) (level : Log.Level) (message : String)
    (fields : List (String × Log.Value)) (i : Handshake.Introduction) : Session :=
  let event : Log.Event := { level, target := .session, message, fields }
  { s with log := s.log ++ [event.withOptional "server" (i.serverInfo.map (·.name))] }

/-- The moment so long after now. Time has no end here. A clock of 64 bits has one, and with windows of
about `2 ^ 63` seconds there would be no such moment and the program would give up; settings like that
are not described. -/
def after (s : Session) (d : Duration) : Nat := s.now + d.nanos

def finishWork (s : Session) (n : Nat) (deadline : Option Nat) (purpose : Purpose)
    (result : Except SessionError Json) : Session :=
  match purpose, result with
  | .answer, .ok v => s.finishCall n (.answered v)
  | .answer, .error e => s.finishCall n (.failed e)
  | .message outcome, .ok _ => s.finishCall n outcome
  | .message _, .error e => s.finishCall n (.failed e)
  | .introduce, .error e => s.giveUp n e.asHandshake
  | .introduce, .ok v =>
    match s.settings.reads v with
    | .error e => s.giveUp n (SessionError.codec (.data e)).asHandshake
    | .ok introduction =>
      (s.noteServer .debug "received initialize result" [] introduction).startMessage n
        "initialized" (some (.obj [])) deadline (.confirm introduction)
  | .confirm _, .error e => s.giveUp n e.asHandshake
  | .confirm introduction, .ok _ =>
    let s := s.noteServer .info "language session running"
      [("transport", .text s.label)] introduction
    ({ s with introduction := some introduction }.setState .running).finishCall n .started
  | .shutdown, .ok _ => s.startMessage n "exit" none none (.leave (.ok ()))
  | .shutdown, .error e =>
    (s.note .warn "shutdown request failed" [("error", .shown e.message)]).startMessage n
      "exit" none none (.leave (.error e))
  | .leave outcome, .ok _ => s.moveCall n (.ending .fresh outcome)
  | .leave outcome, .error e =>
    (s.note .debug "exit notification not delivered" [("error", .shown e.message)]).moveCall n
      (.ending .fresh outcome)

/-- The deadline of a piece of work has passed; the work has been dropped. Only the handshake and
the closing exchange have deadlines. -/
def expire (s : Session) (n : Nat) (purpose : Purpose) : Session :=
  match purpose with
  | .introduce | .confirm _ =>
    s.giveUp n (.timeout .opening s.settings.handshakeTimeout.millis)
  | _ =>
    s.finishWork n none purpose (.error (.timeout .closing s.settings.shutdownTimeout.millis))

def drainInterval : Duration := Duration.ofMillis 10

def drainCheck (s : Session) (n : Nat) (previous : SessionState) (deadline : Nat) : Session :=
  if 0 < s.inFlight ∧ s.now < deadline then
    s.moveCall n (.draining previous deadline (s.after drainInterval))
  else if 0 < s.inFlight then
    (s.note .warn "drain window elapsed with requests outstanding"
      [("remaining", .int s.inFlight),
        ("window_ms", .int s.settings.drainWindow.millis)]).moveCall n
      (.drained previous)
  else s.moveCall n (.drained previous)

def openCall (s : Session) (n : Nat) (ask : Ask) : Session :=
  match ask with
  | .opening =>
    (s.setState .starting).startExchange n "initialize"
      (some (Handshake.params s.processId s.settings.folders))
      (some (s.after s.settings.handshakeTimeout)) .introduce
  | .stop =>
    match s.state with
    | .stopped | .stopping =>
      (s.note .debug "stop requested on idle session"
        [("state", .shown s.state.name)]).finishCall n .stopped
    | previous =>
      (s.setState .stopping).moveCall n
        (.draining previous (s.after s.settings.drainWindow) s.now)
  | ask =>
    match s.welcome with
    | .ok _ => s.moveCall n (.admitted ask)
    | .error e => s.finishCall n (.failed e)

/-- The second step of a request, a notification or a document event. A document event is routed
here: the open documents change before anything is sent. -/
def proceed (s : Session) (n : Nat) (ask : Ask) : Session :=
  match ask with
  | .request method params => s.startExchange n method params none .answer
  | .notify method params => s.startMessage n method params none (.message .notified)
  | .document event =>
    let (routed, documents) := s.documents.offer s.filter event
    let s := { s with documents }
    match routed with
    | .forwarded =>
      s.startMessage n event.method (some event.params) none (.message (.routed .forwarded))
    | .ignored => s.finishCall n (.routed .ignored)
  | .opening | .stop => s

/-- One step of closing the stream on behalf of call `n`: nothing if it is blocked, otherwise the
place it has reached, or none if the stream is closed. -/
def closeStep (s : Session) (n : Nat) : Closing → Option (Session × Option Closing)
  | .fresh => some (s.joinQueue (.call n), some .queued)
  | .queued =>
    if s.holdsWriter (.call n) then
      let next := if s.writer then Closing.shutting else Closing.aborting
      some ({ s.leaveQueue (.call n) with writer := false }, some next)
    else none
  | .shutting =>
    let s := match s.closeFailure with
      | none => s
      | some cause =>
        s.note .debug "closing write half failed"
          [("error", .shown (FramingError.io cause).message)]
    some ({ s with closed := true }, some .aborting)
  | .aborting => some ({ s with readerAborted := true }, some .joining)
  | .joining => if s.reader = .ended then some (s, some .abandoning) else none
  | .abandoning =>
    let abandoned := s.inFlight
    let s := s.abandonPending
    if 0 < abandoned then
      some (s.note .debug "abandoned outstanding requests" [("abandoned", .int abandoned)], none)
    else some (s, none)

def finishStop (s : Session) (n : Nat) (result : Except SessionError Unit) : Session :=
  ((s.setState .stopped).note .info "language session stopped" []).finishCall n
    (match result with
      | .ok _ => .stopped
      | .error e => .failed e)

def callStep (s : Session) (n : Nat) : Option Session :=
  match s.calls.get? n with
  | none => none
  | some c =>
    match c.stage with
    | .fresh ask => some (s.openCall n ask)
    | .admitted ask => some (s.proceed n ask)
    | .working work deadline purpose =>
      match s.workStep n c.mailbox work with
      | .going s work => some (s.moveCall n (.working work deadline purpose))
      | .finished s result => some (s.finishWork n deadline purpose result)
      | .blocked =>
        match deadline with
        | none => none
        | some d =>
          if d ≤ s.now then some ((s.dropWork (.call n) work).expire n purpose) else none
    | .draining previous deadline wakeAt =>
      if wakeAt ≤ s.now then some (s.drainCheck n previous deadline) else none
    | .drained previous =>
      if previous = .running ∧ s.hungUp = false then
        some (s.startExchange n "shutdown" none
          (some (s.after s.settings.shutdownTimeout)) .shutdown)
      else some (s.moveCall n (.ending .fresh (.ok ())))
    | .givingUp closing e =>
      match s.closeStep n closing with
      | none => none
      | some (s, some closing) => some (s.moveCall n (.givingUp closing e))
      | some (s, none) => some ((s.setState .stopped).finishCall n (.failed e))
    | .ending closing result =>
      match s.closeStep n closing with
      | none => none
      | some (s, some closing) => some (s.moveCall n (.ending closing result))
      | some (s, none) => some (s.finishStop n result)
    | .over _ => none

/-! ## The reader and its refusals -/

def handle (s : Session) (payload : List UInt8) : Session :=
  match Rpc.Message.ofPayload payload with
  | .ok (.response r) => s.complete r
  | .ok (.serverRequest r) =>
    { s with
      refusals := s.refusals.set s.nextRefusal (.fresh r)
      nextRefusal := s.nextRefusal + 1 }
  | .ok (.notification n) =>
    if s.receiver = .discarded then s.note .debug "notification receiver dropped" []
    else { s with notices := s.notices ++ [n] }
  | .error e => s.note .warn "discarding malformed message" [("error", .shown e.message)]

/-- One step of the reader. Once it is told to end it takes no further frame; if it is past reading
it finishes what it is doing. -/
def readerStep (s : Session) : Option Session :=
  match s.reader with
  | .reading =>
    if s.readerAborted then some { s with reader := .ended }
    else
      match Frame.receive s.inbox with
      | (.waiting, _) => none
      | (.payload payload, inbox) => some ({ s with inbox }.handle payload)
      | (.failure .closed, inbox) =>
        some ({ s with inbox, reader := .marking }.note .debug "server closed the stream" [])
      | (.failure e, inbox) =>
        some ({ s with inbox, reader := .marking }.note .warn "reading from server failed"
          [("error", .shown e.message)])
  | .marking => some { s with hungUp := true, reader := .clearing }
  | .clearing =>
    let abandoned := s.inFlight
    let s : Session := { s.abandonPending with reader := .ended }
    if s.state = .running then
      some (s.note .warn "server hung up, session no longer usable" [("abandoned", .int abandoned)])
    else some s
  | .ended => none

def refusalOf (r : Rpc.ServerRequest) : Rpc.Response :=
  .refusal r.id Rpc.methodNotFound ("method not supported by client: " ++ r.method)

def refusalStep (s : Session) (n : Nat) : Option Session :=
  match s.refusals.get? n with
  | none => none
  | some (.fresh r) =>
    let s := s.note .debug "rejecting unsupported server request" [("method", .shown r.method)]
    some { s with refusals := s.refusals.set n (.sending (.fresh (refusalOf r).payload)) }
  | some (.sending sending) =>
    match s.sendStep (.refusal n) sending with
    | .blocked => none
    | .going s sending => some { s with refusals := s.refusals.set n (.sending sending) }
    | .finished s (.ok _) => some { s with refusals := s.refusals.erase n }
    | .finished s (.error e) =>
      let s := s.note .debug "could not answer server request" [("error", .shown e.message)]
      some { s with refusals := s.refusals.erase n }

def step (s : Session) : Task → Option Session
  | .call n => s.callStep n
  | .reader => s.readerStep
  | .refusal n => s.refusalStep n

def tasks (s : Session) : List Task :=
  s.calls.keys.map .call ++ [.reader] ++ s.refusals.keys.map .refusal

/-! ## The outside world -/

def sendingOf (s : Session) : Task → Option Sending
  | .call n =>
    match s.calls.get? n with
    | some { stage := .working (.exchange (.sending _ sending)) _ _, .. } => some sending
    | some { stage := .working (.send sending) _ _, .. } => some sending
    | _ => none
  | .reader => none
  | .refusal n =>
    match s.refusals.get? n with
    | some (.sending sending) => some sending
    | _ => none

/-- The octets that a task wants to put on the wire next; none if it is not writing. -/
def offered (s : Session) (t : Task) : List UInt8 :=
  match s.sendingOf t with
  | some (.writing _ rest) => rest
  | _ => []

def replaceSending (sending : Sending) : Stage → Stage
  | .working (.exchange (.sending id _)) deadline purpose =>
    .working (.exchange (.sending id sending)) deadline purpose
  | .working (.send _) deadline purpose => .working (.send sending) deadline purpose
  | stage => stage

def accept (s : Session) (t : Task) (count : Nat) : Session :=
  match s.sendingOf t with
  | some (.writing payload rest) =>
    let sending := Sending.writing payload (rest.drop count)
    let s := { s with wire := s.wire ++ rest.take count }
    match t with
    | .call n =>
      match s.calls.get? n with
      | some c => s.moveCall n (replaceSending sending c.stage)
      | none => s
    | .reader => s
    | .refusal n => { s with refusals := s.refusals.set n (.sending sending) }
  | _ => s

def refuse (s : Session) (t : Task) (cause : IoError) : Session :=
  match s.sendingOf t with
  | some (.writing _ _) =>
    let e : SessionError := .transport (.io cause)
    match t with
    | .call n =>
      match s.calls.get? n with
      | some { stage := .working work deadline purpose, .. } =>
        (s.dropWork t work).finishWork n deadline purpose (.error e)
      | _ => s
    | .reader => s
    | .refusal n =>
      let s := (s.leaveQueue t).note .debug "could not answer server request"
        [("error", .shown e.message)]
      { s with refusals := s.refusals.erase n }
  | _ => s

/-- A caller loses interest in call `n`. A call that has taken the writer takes it along, so the
client's end of the stream is closed with it. -/
def dropCall (s : Session) (n : Nat) : Session :=
  match s.calls.get? n with
  | none => s
  | some c =>
    let s := match c.stage with
      | .working work _ _ => s.dropWork (.call n) work
      | .givingUp .queued _ | .ending .queued _ => s.leaveQueue (.call n)
      | .givingUp .shutting _ | .ending .shutting _ => { s with closed := true }
      | _ => s
    { s with calls := s.calls.erase n }

def arrive (s : Session) (bytes : List UInt8) : Session :=
  { s with inbox := { s.inbox with bytes := s.inbox.bytes ++ bytes } }

def endStream (s : Session) (ending : Frame.Ending) : Session :=
  { s with inbox := { s.inbox with ending } }

inductive Event where
  /-- A caller makes a call under a number that was not used before. -/
  | call (n : Nat) (ask : Ask)
  | step (t : Task)
  | accept (t : Task) (count : Nat)
  | refuse (t : Task) (cause : IoError)
  | arrive (bytes : List UInt8)
  | endStream (ending : Frame.Ending)
  | pass (nanos : Nat)
  | drop (n : Nat)
  | takeNotices
  | fetchNotices
  | discardNotices

/-- What an event makes of a session. An event that cannot happen changes nothing. -/
def apply (s : Session) : Event → Session
  | .call n ask =>
    match s.calls.get? n with
    | some _ => s
    | none => { s with calls := s.calls.set n { stage := .fresh ask } }
  | .step t => (s.step t).getD s
  | .accept t count => s.accept t count
  | .refuse t cause => s.refuse t cause
  | .arrive bytes => if s.inbox.ending = .ongoing then s.arrive bytes else s
  | .endStream ending => if s.inbox.ending = .ongoing then s.endStream ending else s
  | .pass nanos => { s with now := s.now + nanos }
  | .drop n => s.dropCall n
  | .takeNotices => if s.receiver = .kept then { s with receiver := .taken } else s
  | .fetchNotices => if s.receiver = .taken then { s with notices := [] } else s
  | .discardNotices => { s with receiver := .discarded, notices := [] }

def run (s : Session) (events : List Event) : Session := events.foldl apply s

/-! ## Running a task until it is blocked -/

inductive Outlet where
  | takesAll
  | refuses (cause : IoError)
  deriving DecidableEq, Repr

/-- The next thing that happens when a task is given the chance to go on: the stream takes or
refuses what it is writing, or it takes a step. -/
def go (s : Session) (outlet : Outlet) (t : Task) : Option Session :=
  match s.offered t with
  | [] => s.step t
  | bytes =>
    match outlet with
    | .takesAll => some (s.accept t bytes.length)
    | .refuses cause => some (s.refuse t cause)

def nextWake (s : Session) : Option Nat :=
  let wakes := s.calls.entries.filterMap fun e =>
    match e.2.stage with
    | .working _ (some d) _ => some d
    | .draining _ _ wakeAt => some wakeAt
    | _ => none
  (wakes.filter (s.now < ·)).min?

end LanguageClient.Session
