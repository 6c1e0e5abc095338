import LanguageClient.Activation.Controller
import LanguageClient.Session.Link

/-!
# A controller among scripted collaborators

A rehearsal plays a controller in virtual time. Its collaborators do nothing real: how long they
take and what they answer is read off a `Behaviour`, at the moment when it matters, and they write
down what they were asked and when.

Sessions are scripted as well, or they are real ones that talk to a small server
(`Session/Link.lean`).
-/

namespace LanguageClient.Activation

/-- How scripted collaborators behave. Times are in milliseconds. -/
structure Behaviour where
  launchFailure : Option LaunchError := none
  killDelay : Nat := 0
  killOutcome : Termination := .exited
  /-- Whether endpoints are held, or how finding out fails. -/
  occupied : Except ConnectError Bool := .ok false
  connectDelay : Nat := 0
  connectFailure : Option ConnectError := none
  startDelay : Nat := 0
  startFailure : Option SessionError := none
  stopDelay : Nat := 0
  stopState : SessionState := .stopped
  stopFailure : Option SessionError := none
  reactions : List (String × Reaction) := []

namespace Rehearsal

inductive Result where
  | controller (outcome : Outcome)
  /-- The session that was found: its state and its filter. -/
  | session (handle : Option (SessionState × DocumentFilter))
  | traffic (outcome : Option LanguageClient.Outcome)

inductive Call where
  | controller (ask : Ask)
  | request (method : String) (params : Option Json)

inductive Job where
  | call (n : Nat)
  | server (link : Nat)
  /-- A task of the session of a link: its reader, or a refusal. -/
  | task (link : Nat) (t : Task)
  deriving DecidableEq, Repr

structure Scene where
  controller : Controller := {}
  behaviour : Behaviour := {}
  probes : Bool := true
  /-- How real sessions behave, if sessions are real. -/
  protocol : Option SessionSettings := none
  links : Table Link := {}
  now : Nat := 0
  /-- When the answer to a call's request is due. -/
  due : Table Nat := {}
  /-- The requests that calls are to send: the method, the parameters. -/
  errands : Table (String × Option Json) := {}
  calls : List (String × Nat) := []
  nextCall : Nat := 1
  live : Nat := 0
  /-- What the collaborators have written down since the last record, with the time in milliseconds.
  -/
  events : List (Nat × String) := []
  /-- The calls that have finished since the last record: name, time in milliseconds, result. -/
  finished : List (String × Nat × Result) := []
  log : List Log.Event := []

namespace Scene

def millis (w : Scene) : Nat := w.now / 1000000

def write (w : Scene) (text : String) : Scene := { w with events := w.events ++ [(w.millis, text)] }

def gatherLog (w : Scene) : Scene :=
  let fromLinks := w.links.entries.flatMap fun e => e.2.session.log
  { w with
    log := w.log ++ w.controller.log ++ fromLinks
    controller := { w.controller with log := [] }
    links := w.links.mapValues fun _ l => { l with session := { l.session with log := [] } } }

def setSession (w : Scene) (m : Nat) (l : Link) (s : Session) : Scene :=
  { w with links := w.links.set m { l with session := s } }

/-! ## Collaborators -/

def noteRequest (w : Scene) (request : Request) : Scene :=
  match request with
  | .probe transport => if w.probes then w.write ("probe " ++ transport.text) else w
  | .launch command => w.write ("spawn " ++ command.text ++ " " ++ command.stdio.name)
  | .connect transport launched =>
    w.write ("connect " ++ transport.text ++ (if launched then " process" else " none"))
  | .openSession filter => w.write ("start " ++ filter.text ++ " duplex")
  | .stopSession _ => w.write "stop"
  | .kill _ => w.write "kill"

def delayOf (b : Behaviour) : Request → Nat
  | .probe _ => 0
  | .launch _ => 0
  | .connect _ _ => b.connectDelay
  | .openSession _ => b.startDelay
  | .stopSession _ => b.stopDelay
  | .kill _ => b.killDelay

def failing {ε : Type} : Option ε → Except ε Unit
  | none => .ok ()
  | some e => .error e

def answerOf (w : Scene) : Request → Answer × Scene
  | .probe _ => (.probed (if w.probes then w.behaviour.occupied else .ok false), w)
  | .launch _ =>
    match w.behaviour.launchFailure with
    | some e => (.launched (.error e), w)
    | none => (.launched (.ok ()), { w with live := w.live + 1 })
  | .connect _ _ => (.connected (failing w.behaviour.connectFailure), w)
  | .openSession _ =>
    match w.behaviour.startFailure with
    | some e => (.opened (.error e), w)
    | none => (.opened (.ok ()), w.write "started")
  | .stopSession _ =>
    (.stopped (failing w.behaviour.stopFailure) w.behaviour.stopState, w.write "stop done")
  | .kill _ =>
    let outcome := w.behaviour.killOutcome
    let w := if outcome.isTerminated then { w with live := w.live - 1 } else w
    (.killed outcome, w.write ("kill done " ++ outcome.text))

def hear (w : Scene) (n : Nat) (a : Answer) : Scene :=
  { w with controller := w.controller.answer n a, due := w.due.erase n }

def serve (w : Scene) (n : Nat) (request : Request) : Option Scene :=
  match w.due.get? n with
  | none =>
    let w := w.noteRequest request
    some { w with due := w.due.set n (w.now + delayOf w.behaviour request * 1000000) }
  | some due =>
    if due ≤ w.now then
      let (a, w) := w.answerOf request
      some (w.hear n a)
    else none

def openReal (w : Scene) (n : Nat) (settings : SessionSettings) (filter : DocumentFilter) :
    Option Scene :=
  match w.links.get? n with
  | none =>
    let w := w.noteRequest (.openSession filter)
    some { w with
      links := w.links.set n {
        session := Session.start settings filter "duplex" 0 w.now
        reactions := w.behaviour.reactions } }
  | some l =>
    match l.session.go l.outlet (.call 0) with
    | some s => some (w.setSession n l s)
    | none =>
      (l.outcomeOf 0).map fun o => w.hear n (.opened o.result)

def stopReal (w : Scene) (n m : Nat) : Option Scene :=
  match w.links.get? m with
  | none => none
  | some l =>
    match l.session.calls.get? n with
    | none => some (w.setSession m l (l.session.apply (.call n .stop)))
    | some _ =>
      match l.session.go l.outlet (.call n) with
      | some s => some (w.setSession m l s)
      | none =>
        (l.outcomeOf n).map fun o => w.hear n (.stopped o.result l.session.state)

/-! ## Calls -/

def foundSession (w : Scene) (n : Nat) : Option Nat :=
  match w.controller.outcomeOf n, w.protocol with
  | some (.found m), some _ => m
  | _, _ => none

def runErrand (w : Scene) (n : Nat) : Option Scene :=
  match w.errands.get? n, w.foundSession n with
  | some (method, params), some m =>
    match w.links.get? m with
    | none => none
    | some l =>
      match l.session.calls.get? n with
      | none => some (w.setSession m l (l.session.apply (.call n (.request method params))))
      | some _ => (l.session.go l.outlet (.call n)).map (w.setSession m l)
  | _, _ => none

def stepCall (w : Scene) (n : Nat) : Option Scene :=
  match w.controller.requestOf n with
  | some request =>
    match request, w.protocol with
    | .openSession filter, some settings => w.openReal n settings filter
    | .stopSession m, some _ => w.stopReal n m
    | request, _ => w.serve n request
  | none =>
    match w.controller.step n with
    | some c => some { w with controller := c }
    | none => w.runErrand n

def resultIn (w : Scene) (n : Nat) : Option Result :=
  match w.controller.outcomeOf n with
  | none => none
  | some (.found _) =>
    let link := (w.foundSession n).bind fun m => w.links.get? m
    match w.errands.get? n, link with
    | none, none => some (.session none)
    | none, some l => some (.session (some (l.session.state, l.session.filter)))
    | some _, none => some (.traffic none)
    | some _, some l => (l.outcomeOf n).map fun o => .traffic (some o)
  | some outcome => some (.controller outcome)

def conclude (w : Scene) (n : Nat) : Scene :=
  match w.calls.find? (·.2 == n), w.resultIn n with
  | some (name, _), some result =>
    { w with
      calls := w.calls.filter (·.2 != n)
      finished := w.finished ++ [(name, w.millis, result)] }
  | _, _ => w

def go (w : Scene) : Job → Option Scene
  | .call n => (w.stepCall n).map fun w => (w.conclude n).gatherLog
  | .server m =>
    (w.links.get? m).bind fun l =>
      l.serverStep.map fun l => { w with links := w.links.set m l }.gatherLog
  | .task m t =>
    (w.links.get? m).bind fun l =>
      (l.session.go l.outlet t).map fun s => (w.setSession m l s).gatherLog

/-- The jobs there are: calls first, then the servers and the sessions in the order of their links.
-/
def jobs (w : Scene) : List Job :=
  w.calls.map (fun c => .call c.2) ++ w.links.entries.flatMap fun e =>
    .server e.1 :: .task e.1 .reader ::
      e.2.session.refusals.keys.map fun k => .task e.1 (.refusal k)

def setNow (w : Scene) (now : Nat) : Scene :=
  { w with now, links := w.links.mapValues fun _ l => { l with session := { l.session with now } } }

/-- The next moment after now at which somebody wants to look again. -/
def nextWake (w : Scene) : Option Nat :=
  let dues := (w.due.entries.map (·.2)).filter (w.now < ·)
  (dues ++ w.links.entries.filterMap fun e => e.2.session.nextWake).min?

def system : Schedule.System Scene Job where
  tasks := jobs
  go := go
  now := Scene.now
  setNow := setNow
  nextWake := nextWake

def settle (w : Scene) : Scene := system.settle w

/-! ## Scripts -/

def call (w : Scene) (name : String) (c : Call) : Scene :=
  let n := w.nextCall
  let (ask, errands) := match c with
    | .controller ask => (ask, w.errands)
    | .request method params => (Ask.session, w.errands.set n (method, params))
  { w with
    nextCall := n + 1
    calls := w.calls ++ [(name, n)]
    errands
    controller := w.controller.apply (.call n ask) }

/-- A caller loses interest: whether the call was under way. A session loses the call that it was
opened or stopped by, or that sent a request. -/
def cancel (w : Scene) (name : String) : Bool × Scene :=
  match w.calls.lookup name with
  | none => (false, w)
  | some n =>
    let onSession (m : Nat) (l : Link) : Link :=
      { l with session := (if m = n then l.session.apply (.drop 0) else l.session).apply (.drop n) }
    (true, { w with
      calls := w.calls.filter (·.2 != n)
      due := w.due.erase n
      controller := w.controller.apply (.drop n)
      links := w.links.mapValues onSession })

def pass (w : Scene) (millis : Nat) : Scene := system.pass id (millis * 1000000) w

structure Record where
  phase : ActivationPhase
  events : List (Nat × String)
  live : Nat
  finished : List (String × Nat × Result)
  pending : List String
  nowMillis : Nat
  log : List Log.Event

def record (w : Scene) : Record × Scene :=
  ({ phase := w.controller.phase
     events := w.events
     live := w.live
     finished := w.finished
     pending := (w.calls.map (·.1)).mergeSort (· ≤ ·)
     nowMillis := w.millis
     log := w.log },
   { w with events := [], finished := [], log := [] })

end Scene

end Rehearsal

end LanguageClient.Activation
