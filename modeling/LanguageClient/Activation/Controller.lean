import LanguageClient.Activation.Phase
import LanguageClient.Activation.Plan
import LanguageClient.Activation.Report
import LanguageClient.Log.Event
import LanguageClient.Table

/-!
# Bringing a server up and winding it down

A controller owns at most one server. *Activating* brings one up: launch it if the plan has a
command (after making sure that its endpoint is free), connect to it, open a session. *Deactivating*
winds it down in the opposite order: stop the session, then end the process.

Calls on a controller are serialised by its *slot*. A call takes the slot before it does anything
and holds it until it is over, so a deactivation that comes in the middle of an activation waits,
and then winds down whatever the activation has brought up. Slots are handed out in the order in
which they were asked for: the slot is a queue of calls whose head holds it.

The controller does none of the work itself. Where it needs a collaborator it asks a `Request` and
waits for the `Answer`, and in between any other call may move. Everything asked and answered is
written down in `trace`. What a call brings up carries the number of the call: process `n` and
session `n` are those that call `n` launched and opened.
-/

namespace LanguageClient.Activation

inductive Ask where
  | activate (plan : ActivationPlan)
  | activateWith (settings : Settings)
  | deactivate
  /-- Wind the server down, if there is anything to wind down. -/
  | deactivateIfBusy
  | session
  deriving DecidableEq, Repr

inductive Outcome where
  | activated
  | refused (error : ActivationError)
  | deactivated (report : DeactivationReport)
  | notBusy
  /-- The number of the active session, if there is one. -/
  | found (session : Option Nat)
  deriving DecidableEq, Repr

/-- What the controller asks of a collaborator. -/
inductive Request where
  | probe (transport : Transport)
  | launch (command : ServerCommand)
  /-- To connect to a server, which was launched for this or runs on its own. -/
  | connect (transport : Transport) (launched : Bool)
  | openSession (filter : DocumentFilter)
  | stopSession (n : Nat)
  | kill (n : Nat)
  deriving DecidableEq, Repr

inductive Answer where
  | probed (result : Except ConnectError Bool)
  | launched (result : Except LaunchError Unit)
  | connected (result : Except ConnectError Unit)
  | opened (result : Except SessionError Unit)
  /-- What came of stopping, and the state that the session is in then. -/
  | stopped (result : Except SessionError Unit) (state : SessionState)
  | killed (outcome : Termination)

/-- Something between the controller and a collaborator, on behalf of call `n`. -/
inductive Deed where
  | asked (n : Nat) (request : Request)
  | answered (n : Nat) (answer : Answer)

structure ActiveServer where
  /-- The call that brought it up. -/
  owner : Nat
  /-- Whether it was launched for that. -/
  launched : Bool
  deriving DecidableEq, Repr

inductive Stage where
  | fresh (ask : Ask)
  /-- It holds the slot or waits for it, and has done nothing else. -/
  | queued (ask : Ask)
  | probing (plan : ActivationPlan)
  | launching (plan : ActivationPlan) (command : ServerCommand)
  | connecting (plan : ActivationPlan)
  | opening (plan : ActivationPlan)
  /-- It has failed and waits for the process it has launched to end. -/
  | releasing (error : ActivationError)
  | stopping (server : ActiveServer)
  /-- The session has stopped and it waits for the process to end. -/
  | ending (server : ActiveServer) (sessionStopped : Bool) (sessionError : Option SessionError)
  | over (outcome : Outcome)
  /-- Its caller has lost interest. -/
  | dropped
  deriving DecidableEq, Repr

structure Controller where
  phase : ActivationPhase := .notActivated
  /-- The server it owns, while no call is busy with it. -/
  server : Option ActiveServer := none
  /-- The calls that hold or want the slot, the holder first. -/
  queue : List Nat := []
  calls : Table Stage := {}
  /-- Everything asked of collaborators and answered by them, the oldest first. -/
  trace : List Deed := []
  log : List Log.Event := []

namespace Controller

/-! ## Small updates -/

def note (c : Controller) (level : Log.Level) (message : String)
    (fields : List (String × Log.Value)) : Controller :=
  { c with log := c.log ++ [{ level, target := .activation, message, fields }] }

def setPhase (c : Controller) (next : ActivationPhase) : Controller :=
  { c with phase := next }.note .debug "phase changed"
    [("from", .shown c.phase.text), ("to", .shown next.text)]

def move (c : Controller) (n : Nat) (stage : Stage) : Controller :=
  { c with calls := c.calls.set n stage }

def joinQueue (c : Controller) (n : Nat) : Controller := { c with queue := c.queue ++ [n] }

def leaveQueue (c : Controller) (n : Nat) : Controller :=
  { c with queue := c.queue.filter (· != n) }

def holdsSlot (c : Controller) (n : Nat) : Bool := c.queue.head? == some n

def finish (c : Controller) (n : Nat) (outcome : Outcome) : Controller :=
  (c.leaveQueue n).move n (.over outcome)

def requestAt (n : Nat) : Stage → Option Request
  | .probing plan => some (.probe plan.transport)
  | .launching _ command => some (.launch command)
  | .connecting plan => some (.connect plan.transport plan.command.isSome)
  | .opening plan => some (.openSession plan.filter)
  | .releasing _ => some (.kill n)
  | .stopping server => some (.stopSession server.owner)
  | .ending server _ _ => some (.kill server.owner)
  | .fresh _ | .queued _ | .over _ | .dropped => none

def await (c : Controller) (n : Nat) (stage : Stage) : Controller :=
  match requestAt n stage with
  | some request => { c.move n stage with trace := c.trace ++ [.asked n request] }
  | none => c.move n stage

/-! ## Activating -/

def abort (c : Controller) (n : Nat) (error : ActivationError) : Controller :=
  ((c.setPhase .notActivated).note .warn "activation aborted"
    [("error", .shown error.message)]).finish n (.refused error)

/-- The activation has failed: the process it has launched, if any, is ended first. -/
def release (c : Controller) (n : Nat) (plan : ActivationPlan) (error : ActivationError) :
    Controller :=
  if plan.command.isSome then c.await n (.releasing error) else c.abort n error

def complete (c : Controller) (n : Nat) (plan : ActivationPlan) : Controller :=
  (({ c with server := some { owner := n, launched := plan.command.isSome } }.setPhase
    .activated).note .info "language client activated" []).finish n .activated

/-- Begins to bring up a server. The endpoint of a server that is to be launched is looked at first
if it is a socket. -/
def bringUp (c : Controller) (n : Nat) (plan : ActivationPlan) : Controller :=
  match plan.command with
  | none => c.await n (.connecting plan)
  | some command =>
    match plan.transport.kind with
    | .socket => c.await n (.probing plan)
    | .stdio => c.await n (.launching plan command)

def activate (c : Controller) (n : Nat) (plan : ActivationPlan) : Controller :=
  match c.server with
  | some _ => c.finish n (.refused .alreadyActive)
  | none =>
    ((c.setPhase .activating).note .info "activating language client"
      [("mode", .shown plan.mode.name), ("transport", .shown plan.transport.text)]).bringUp n plan

/-! ## Deactivating -/

def deactivate (c : Controller) (n : Nat) : Controller :=
  match c.server with
  | none =>
    (c.note .debug "nothing to deactivate" []).finish n (.deactivated DeactivationReport.idle)
  | some server =>
    ({ c with server := none }.setPhase .deactivating).await n (.stopping server)

def conclude (c : Controller) (n : Nat) (report : DeactivationReport) : Controller :=
  ((c.setPhase .notActivated).note .info "language client deactivated"
    [("outcome", .shown report.text)]).finish n (.deactivated report)

/-- The session of a server has stopped: its process is next, if the client has launched it. -/
def sessionStopped (c : Controller) (n : Nat) (server : ActiveServer)
    (result : Except SessionError Unit) (state : SessionState) : Controller :=
  let stopped := state == .stopped
  let (c, error) : Controller × Option SessionError := match result with
    | .ok _ => (c, none)
    | .error e =>
      (c.note .warn "session stopped with errors" [("error", .shown e.message)], some e)
  if server.launched then c.await n (.ending server stopped error)
  else c.conclude n { sessionStopped := stopped, sessionError := error, termination := none }

/-! ## Steps and answers -/

def begin (c : Controller) (n : Nat) : Ask → Controller
  | .activate plan => c.activate n plan
  | .activateWith settings =>
    match ActivationPlan.ofSettings settings with
    | .ok plan => c.activate n plan
    | .error e => c.finish n (.refused e)
  | .deactivate | .deactivateIfBusy => c.deactivate n
  | .session => c.finish n (.found (c.server.map (·.owner)))

/-- Whether a call is answered without the slot: settings that cannot be honoured, and a
deactivation that need not be. -/
def answerAtOnce (c : Controller) : Ask → Option Outcome
  | .activateWith settings =>
    match ActivationPlan.ofSettings settings with
    | .ok _ => none
    | .error e => some (.refused e)
  | .deactivateIfBusy => if c.phase = .notActivated then some .notBusy else none
  | _ => none

def step (c : Controller) (n : Nat) : Option Controller :=
  match c.calls.get? n with
  | some (.fresh ask) =>
    match c.answerAtOnce ask with
    | some outcome => some (c.move n (.over outcome))
    | none => some ((c.joinQueue n).move n (.queued ask))
  | some (.queued ask) => if c.holdsSlot n then some (c.begin n ask) else none
  | _ => none

def requestOf (c : Controller) (n : Nat) : Option Request := (c.calls.get? n).bind (requestAt n)

/-- What an answer to call `n` makes of a controller whose call is at a stage. An answer to
something else changes nothing. -/
def resume (c : Controller) (n : Nat) : Stage → Answer → Option Controller
  | .probing plan, .probed result =>
    match result, plan.command with
    | .error e, _ => some (c.abort n (.connect e))
    | .ok true, _ => some (c.abort n (.portInUse plan.transport.text))
    | .ok false, some command => some (c.await n (.launching plan command))
    | .ok false, none => some (c.await n (.connecting plan))
  | .launching plan _, .launched result =>
    match result with
    | .error e => some (c.abort n (.launch e))
    | .ok _ => some (c.await n (.connecting plan))
  | .connecting plan, .connected result =>
    match result with
    | .error e => some (c.release n plan (.connect e))
    | .ok _ => some (c.await n (.opening plan))
  | .opening plan, .opened result =>
    match result with
    | .error e => some (c.release n plan (.session e))
    | .ok _ => some (c.complete n plan)
  | .releasing error, .killed outcome =>
    some ((c.note .debug "released server after failed activation"
      [("outcome", .shown outcome.text)]).abort n error)
  | .stopping server, .stopped result state => some (c.sessionStopped n server result state)
  | .ending _ sessionStopped sessionError, .killed outcome =>
    some (c.conclude n { sessionStopped, sessionError, termination := some outcome })
  | _, _ => none

def answer (c : Controller) (n : Nat) (a : Answer) : Controller :=
  match c.calls.get? n with
  | none => c
  | some stage =>
    let heard : Controller := { c with trace := c.trace ++ [.answered n a] }
    (heard.resume n stage a).getD c

/-- A caller loses interest in call `n`. Whatever the call held is let go without winding it down:
the slot goes to the next in line, the phase stays as it was. -/
def drop (c : Controller) (n : Nat) : Controller :=
  match c.calls.get? n with
  | none | some (.over _) => c
  | some _ => (c.leaveQueue n).move n .dropped

/-! ## Runs -/

inductive Event where
  /-- A caller makes a call under a number that was not used before. -/
  | call (n : Nat) (ask : Ask)
  | step (n : Nat)
  | answer (n : Nat) (a : Answer)
  | drop (n : Nat)

/-- What an event makes of a controller. An event that cannot happen changes nothing. -/
def apply (c : Controller) : Event → Controller
  | .call n ask =>
    match c.calls.get? n with
    | some _ => c
    | none => c.move n (.fresh ask)
  | .step n => (c.step n).getD c
  | .answer n a => c.answer n a
  | .drop n => c.drop n

def run (c : Controller) (events : List Event) : Controller := events.foldl apply c

def outcomeOf (c : Controller) (n : Nat) : Option Outcome :=
  match c.calls.get? n with
  | some (.over outcome) => some outcome
  | _ => none

end Controller

end LanguageClient.Activation
