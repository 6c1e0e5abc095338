import LanguageClient.Duration
import LanguageClient.Log.Event
import LanguageClient.Server.Command
import LanguageClient.Server.Exit
import LanguageClient.Text.Quoted

/-!
# The life of a launched process

A process that was launched can be watched and it can be ended. Ending it is done in two rounds: it
is asked to end and given a *grace period*; if it is still there after that it is killed, and given
the same time again to be gone.

The process itself is a `Child`: when it would end by itself, and how long it goes on after each of
the two signals. That is all that can be seen of it from here, whatever it does, because each signal
is sent at most once.

The operating system does as it is asked: that looking at a process, waiting for it or killing it fails
is left out. A failed look would be followed by the request to end all the same, a failed wait for that
by the kill, a failed kill by the second wait, and a failed second wait would count as no response.
-/

namespace LanguageClient

inductive WaitStatus where
  | exited (code : Nat)
  | signalled (number : Nat)
  deriving DecidableEq, Repr

namespace WaitStatus

def raw : WaitStatus → Nat
  | .exited code => code * 256
  | .signalled number => number

def exit : WaitStatus → ProcessExit
  | .exited code => ⟨some code⟩
  | .signalled _ => ⟨none⟩

def dump (s : WaitStatus) : String := "ExitStatus(unix_wait_status(" ++ toString s.raw ++ "))"

end WaitStatus

inductive Signal where
  | terminate
  | kill
  deriving DecidableEq, Repr

/-- A process as it can be seen from outside. Times are in nanoseconds. -/
structure Child where
  now : Nat := 0
  /-- When it ends by itself, and how. -/
  ownEnd : Option (Nat × WaitStatus) := none
  /-- How long it goes on after it was asked to end, and how it ends then; a process can ignore the
  request. -/
  onTerminate : Option (Nat × WaitStatus) := some (0, .signalled 15)
  onKill : Option Nat := some 0
  terminatedAt : Option Nat := none
  killedAt : Option Nat := none
  deriving DecidableEq, Repr

namespace Child

def earlier : Option (Nat × WaitStatus) → Option (Nat × WaitStatus) → Option (Nat × WaitStatus)
  | none, b => b
  | a, none => a
  | some a, some b => if b.1 < a.1 then some b else some a

def requestedEnd (c : Child) : Option (Nat × WaitStatus) :=
  match c.terminatedAt, c.onTerminate with
  | some t, some (delay, status) => some (t + delay, status)
  | _, _ => none

def forcedEnd (c : Child) : Option (Nat × WaitStatus) :=
  match c.killedAt, c.onKill with
  | some t, some delay => some (t + delay, .signalled 9)
  | _, _ => none

def endsAt (c : Child) : Option (Nat × WaitStatus) :=
  earlier c.ownEnd (earlier c.requestedEnd c.forcedEnd)

def status (c : Child) : Option WaitStatus :=
  match c.endsAt with
  | some (t, status) => if t ≤ c.now then some status else none
  | none => none

/-- A signal reaches the process; only the first of each kind makes a difference. -/
def receive (c : Child) : Signal → Child
  | .terminate => { c with terminatedAt := c.terminatedAt.or (some c.now) }
  | .kill => { c with killedAt := c.killedAt.or (some c.now) }

def atTime (c : Child) (now : Nat) : Child := { c with now }

def pass (c : Child) (nanos : Nat) : Child := c.atTime (c.now + nanos)

def wait (c : Child) (bound : Nat) : Option WaitStatus × Child :=
  match c.endsAt with
  | some (t, status) =>
    if t ≤ c.now + bound then (some status, c.atTime (max c.now t))
    else (none, c.pass bound)
  | none => (none, c.pass bound)

end Child

structure Process where
  child : Child
  grace : Duration := Duration.ofMillis 2000
  /-- How long the client takes from looking at it to asking it to end. The process runs on. -/
  askDelay : Nat := 0
  /-- How long the client takes from giving up waiting to killing it. -/
  killDelay : Nat := 0
  exit : Option ProcessExit := none
  terminated : Bool := false
  signals : List (Nat × Signal) := []
  log : List Log.Event := []
  deriving Repr

namespace Process

def defaultGrace : Duration := Duration.ofMillis 2000

def event (level : Log.Level) (message : String) (fields : List (String × Log.Value)) : Log.Event :=
  { level, target := .supervisor, message, fields }

def note (p : Process) (level : Log.Level) (message : String)
    (fields : List (String × Log.Value)) : Process :=
  { p with log := p.log ++ [event level message fields] }

def launchEvent (c : ServerCommand) : Log.Event :=
  event .debug "spawning language server process"
    [("program", .text c.program), ("args", .shown (Text.quotedList c.args))]

def launchedEvent (pid : Nat) (c : ServerCommand) : Log.Event :=
  event .info "language server process spawned" [("pid", .int pid), ("command", .shown c.text)]

/-- Looks whether the process has ended. What was seen once is not looked at again. -/
def tryExit (p : Process) : Option ProcessExit × Process :=
  match p.exit with
  | some e => (some e, p)
  | none =>
    let exit := p.child.status.map WaitStatus.exit
    (exit, { p with exit })

def pass (p : Process) (nanos : Nat) : Process := { p with child := p.child.pass nanos }

def send (p : Process) (signal : Signal) : Process :=
  { p with
    child := p.child.receive signal
    signals := p.signals ++ [(p.child.now, signal)] }

def wait (p : Process) (bound : Duration) : Option WaitStatus × Process :=
  let (status, child) := p.child.wait bound.nanos
  (status, { p with child })

/-- The second round. The kill cannot fail, and neither can the wait; it can only be in vain. -/
def forceKill (p : Process) : Termination × Process :=
  match ((p.pass p.killDelay).send .kill).wait p.grace with
  | (some status, p) =>
    (.killed, p.note .debug "language server killed" [("status", .shown status.dump)])
  | (none, p) =>
    (.unresponsive, p.note .warn "language server still running after kill"
      [("bound_ms", .int p.grace.millis)])

/-- Both rounds, unless a first look shows that the process has ended. The look cannot fail. -/
def terminate (p : Process) : Termination × Process :=
  match p.child.status with
  | some status =>
    (.alreadyExited,
      p.note .debug "language server already exited" [("status", .shown status.dump)])
  | none =>
    match ((p.pass p.askDelay).send .terminate).wait p.grace with
    | (some status, p) =>
      (.exited, p.note .debug "language server exited" [("status", .shown status.dump)])
    | (none, p) =>
      (p.note .warn "language server did not exit within grace period, killing"
        [("grace_ms", .int p.grace.millis)]).forceKill

def kill (p : Process) : Termination × Process :=
  if p.terminated then (.alreadyExited, p)
  else
    let (outcome, p) := p.terminate
    (outcome, { p with terminated := outcome.isTerminated })

end Process

end LanguageClient
