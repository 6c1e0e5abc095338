import LanguageClient.Machine.Expansion
import LanguageClient.Machine.Signals
import LanguageClient.Server.Process

/-!
# Processes

A process has a list of things to do, channels to read from and to write to, and arrangements for
the signals that may hit it. If it runs a script it also has what its shell remembers. A script is
run by putting what a command consists of at the front of the list; what has to be done once the
command is over stands behind that. So a process can stop anywhere, to wait for input or for another
process, and go on later.
-/

namespace LanguageClient.Machine

inductive Channel where
  | input
  | output
  | messages
  | nothing
  | pipe (reads : Bool) (number : Nat)
  | file (number : Nat)
  deriving DecidableEq, Repr

inductive Act where
  | interpret (tested : Bool) (text : List Char)
  /-- To run the commands that its input consists of, after some that were read already. -/
  | interpretInput (text : List Char)
  /-- To run a command, given answers for its words; `tested` if it may fail. -/
  | run (tested : Bool) (c : Command) (answers : List Captured)
  /-- To run a command if the last one came out in a certain way. -/
  | after (tested success : Bool) (c : Command)
  | choose (tested : Bool) (yes no : Command)
  | test (tested whilst : Bool) (condition body : Command) (first : Bool)
  /-- To go on with a round of a loop after its test, or to end the loop. -/
  | round (tested whilst : Bool) (condition body : Command) (last : Nat)
  | each (tested : Bool) (name : List Char) (values : List (List Char)) (body : Command)
      (first : Bool)
  | negate
  | check
  | restore (channels : List (Nat × Option Channel))
  | rebind (bindings : List (List Char × Option (List Char)))
  /-- To leave a function: its caller had these arguments. -/
  | endFunction (arguments : List (List Char))
  | endSource
  | endTrap (status : Nat) (before : Option Nat)
  | await (numbers : List Nat)
  /-- To wait for processes that were not waited for; none in particular means all. -/
  | awaitStarted (numbers : Option (List Nat))
  /-- To collect the output of a process from a pipe, as an answer for the command behind it. -/
  | gather (pipe number : Nat) (text : List Char)
  | write (octets : List Char) (status : Nat)
  /-- To write the contents of files, or its input, and end up with a status. -/
  | copy (sources : List (List Char)) (status : Nat)
  | readLine (raw : Bool) (names : List (List Char))
  | sleepUntil (moment : Nat)
  | execute (words : List (List Char)) (environment : List (List Char × List Char))
  | quit

structure Task where
  number : Nat
  parent : Nat := 0
  todo : List Act := []
  shell : Shell := {}
  directory : String := "/"
  channels : List (Nat × Channel) := []
  ignored : List Nat := []
  pending : List Nat := []
  paused : Bool := false
  held : List Nat := []
  isPart : Bool := false
  /-- How many loops are running around it in the script that it is a part of. -/
  loopsAround : Nat := 0
  ended : Option WaitStatus := none
  waited : Bool := false

def statusOf : WaitStatus → Nat
  | .exited code => code
  | .signalled number => 128 + number

namespace Task

def done (t : Task) (status : Nat) : Task := { t with shell := { t.shell with status } }

def push (t : Task) (acts : List Act) : Task := { t with todo := acts ++ t.todo }

def finish (t : Task) (status : WaitStatus) : Task := { t with ended := some status, todo := [] }

def channel (t : Task) (n : Nat) : Option Channel := t.channels.lookup n

def setChannel (t : Task) (n : Nat) (c : Option Channel) : Task :=
  let others := t.channels.filter (·.1 != n)
  { t with channels := match c with
    | some c => (n, c) :: others
    | none => others }

def restore (t : Task) (channels : List (Nat × Option Channel)) : Task :=
  channels.foldl (fun t (n, c) => t.setChannel n c) t

def rebind (t : Task) (bindings : List (List Char × Option (List Char))) : Task :=
  let changed := bindings.foldl (fun bs (name, before) =>
    match before with
    | some value => Shell.bind bs name value
    | none => bs.filter (·.1 != name)) t.shell.bindings
  { t with shell := { t.shell with bindings := changed } }

/-- Whether a task has a channel open, for itself or to give it back. -/
def holds (t : Task) (c : Channel) : Bool :=
  t.ended.isNone && (t.channels.any (·.2 == c) || t.todo.any fun
    | .restore saved => saved.any (·.2 == some c)
    | .gather pipe _ _ => c == .pipe true pipe
    | _ => false)

/-! ## Leaving things -/

def isLoop : Act → Bool
  | .test .. | .round .. | .each .. => true
  | _ => false

def isFunctionEnd : Act → Bool
  | .endFunction _ => true
  | _ => false

def isReturnPoint : Act → Bool
  | .endFunction _ | .endSource => true
  | _ => false

/-- How many loops are running in the function that is running: its own, and those around the task
if the function was not called in it. -/
def loops (t : Task) : Nat :=
  let inside := t.todo.takeWhile fun a => !isFunctionEnd a
  (inside.filter isLoop).length + if inside.length < t.todo.length then 0 else t.loopsAround

def leave (t : Task) : Act → Task
  | .restore channels => t.restore channels
  | .rebind bindings => t.rebind bindings
  | .endTrap _ before => { t with shell := { t.shell with before } }
  | .endFunction arguments =>
    { t with shell := { t.shell.leaveFrame with arguments } }
  | _ => t

/-- Leaves everything up to some act, which is left at the front. -/
def unwind (stop : Act → Bool) (t : Task) : List Act → Task
  | [] => { t with todo := [] }
  | act :: rest =>
    if stop act then { t with todo := act :: rest } else unwind stop (t.leave act) rest

/-- Leaves loops. To leave one that is not the task's own is to have nothing left to do. -/
def breakLoops : Nat → Task → Task
  | 0, t => t
  | n + 1, t =>
    let t := unwind isLoop t t.todo
    breakLoops n { t with todo := t.todo.tail }

/-- Goes on with the next round of a loop, which is given by the number of loops to leave. -/
def continueLoop (n : Nat) (t : Task) : Task :=
  let t := breakLoops (n - 1) t
  let t := unwind isLoop t t.todo
  match t.todo with
  | .round tested whilst condition body _ :: rest =>
    { t with todo := .test tested whilst condition body false :: rest }
  | _ => t

def endAction (t : Task) : Option (List Char) :=
  (t.shell.traps.lookup 0).filter fun action => !action.isEmpty

def exit (t : Task) (status : Nat) : Task :=
  let t := unwind (fun _ => false) t t.todo
  match t.endAction with
  | none => t.finish (.exited (status % 256))
  | some action =>
    { t with
      todo := [.interpret false action, .quit]
      shell := { t.shell with
        status
        before := some status
        traps := t.shell.traps.filter (·.1 != 0) } }

def fail (t : Task) : Task := t.exit 2

def takeSignal (t : Task) (n : Nat) : Task :=
  match t.shell.traps.lookup n with
  | some action =>
    let status := t.shell.status
    let acts := [Act.interpret false action, .endTrap status t.shell.before]
    { t.push acts with shell := { t.shell with before := t.shell.before.or (some status) } }
  | none => t

end Task

end LanguageClient.Machine
