import LanguageClient.Machine.Host

/-!
# A launched process under observation

A rehearsal launches one process, talks to it, waits for it and ends it, one thing after the other.
The process runs on while it is talked to or waited for.
-/

namespace LanguageClient.Machine

inductive Streams where
  | absent
  | held
  /-- With the user; `writable` as long as the input has not been closed. -/
  | taken (writable : Bool)
  deriving DecidableEq, Repr

structure Observed where
  program : Program
  process : Process
  streams : Streams

inductive Deed where
  | hasPid
  | takeStreams
  | write (bytes : List UInt8)
  | read (count : Nat)
  | closeInput
  | waitExit
  | tryExit
  | kill
  deriving DecidableEq, Repr

inductive Upshot where
  | nothing
  | yesNo (b : Bool)
  | streams (label : String)
  | written
  | closed
  | broken
  | bytes (bytes : List UInt8)
  | endOfOutput
  | exit (e : ProcessExit)
  | termination (t : Termination)
  deriving DecidableEq, Repr

namespace Observed

def look (o : Observed) : Observed :=
  { o with process := { o.process with child := o.program.child } }

def tryExit (o : Observed) : Upshot × Observed :=
  let (exit, process) := o.look.process.tryExit
  ((exit.map Upshot.exit).getD .nothing, { o with process })

def kill (o : Observed) : Termination × Observed :=
  let seen : Process := { o.process with child := o.program.childAskedToEnd }
  let (outcome, process) := seen.kill
  let asked := if o.program.hasEnded then o.program else o.program.askedToEnd
  let passed := Program.passUntil Program.hasEnded process.child.now Program.moments asked
  let program := if passed.hasEnded || process.child.status.isNone then passed else passed.killed
  (outcome, { o with program, process })

def perform (o : Observed) : Deed → Upshot × Observed
  | .hasPid => (.yesNo (o.process.exit.isNone && !o.process.terminated), o)
  | .takeStreams =>
    match o.streams with
    | .held => (.streams "stdio", { o with streams := .taken true })
    | _ => (.nothing, o)
  | .write bytes =>
    match o.streams with
    | .taken true =>
      if bytes.isEmpty then (.written, o)
      else if o.program.inputRefused then (.broken, o)
      else (.written, { o with program := o.program.give bytes })
    | _ => (.closed, o)
  | .read count =>
    match o.streams with
    | .taken _ =>
      let enough (p : Program) : Bool := count ≤ p.output.size || p.outputEnded
      let program := o.program.waitFor enough
      if count ≤ program.output.size then
        let (bytes, program) := program.take count
        (.bytes bytes, { o with program })
      else (.endOfOutput, { o with program := (program.take program.output.size).2 })
    | _ => (.closed, o)
  | .closeInput =>
    match o.streams with
    | .taken true =>
      (.nothing, { o with
        program := { o.program with inputEnded := true }
        streams := .taken false })
    | _ => (.nothing, o)
  | .waitExit => { o with program := o.program.waitFor Program.hasEnded }.tryExit
  | .tryExit => o.tryExit
  | .kill =>
    let (outcome, o) := o.kill
    (.termination outcome, o)

end Observed

/-- Launches a command: the process under observation, or the failure and what there was to tell. -/
def observe (c : ServerCommand) (grace : Duration) :
    Except (LaunchError × List Log.Event) Observed :=
  match launch c with
  | .error cause => .error (LaunchError.ofIo c.program cause, [Process.launchEvent c])
  | .ok program =>
    .ok {
      program
      process := {
        child := program.child
        grace
        log := [Process.launchEvent c, Process.launchedEvent 0 c] }
      streams := if c.stdio = .piped then .held else .absent }

end LanguageClient.Machine
