import LanguageClient.Machine.Rehearsal
import LanguageClient.Session.Rehearsal

/-!
# A session with a program of the machine

A *dialogue* is a session together with the running program at the other end of its streams. The
streams are pipes: one takes what the client writes and hands it on when the program reads, the
other one the other way round. A pipe has only so much room. A client that finds no room waits until
the program reads something, and it may lose its patience before that.

The client offers the header of a frame and its payload one after the other. A pipe takes few octets
as a whole or not at all, and of many octets as many as there is room for.
-/

namespace LanguageClient.Machine

/-! ## Room in a pipe -/

/-- How many octets a pipe takes as a whole or not at all. -/
def Buffer.undivided : Nat := 4096

namespace Program

/-- Whether a process is reading a line of input. What there is of the line has left the pipe. -/
def isReadingLine (p : Program) : Bool :=
  p.tasks.any fun t => t.ended.isNone && t.channel 0 == some .input &&
    match t.todo with
    | .readLine .. :: _ => true
    | _ => false

def inputRoom (p : Program) : Nat :=
  Buffer.capacity - if p.isReadingLine then 0 else p.input.size

/-- How many octets are taken of so many that are offered as input at once. -/
def taking (p : Program) (count : Nat) : Nat :=
  if count ≤ p.inputRoom then count
  else if count ≤ Buffer.undivided then 0
  else p.inputRoom

end Program

def brokenPipe : IoError := ⟨.brokenPipe, some "Broken pipe (os error 32)"⟩

/-- The octets that a task of a session offers at once: what is left of a header, or else of a
payload. -/
def offeredAtOnce (s : Session) (t : LanguageClient.Task) : List UInt8 :=
  match s.sendingOf t with
  | some (.writing payload rest) =>
    if payload.length < rest.length then rest.take (rest.length - payload.length) else rest
  | _ => []

/-! ## Dialogues -/

structure Dialogue where
  session : Session
  program : Program

namespace Dialogue

/-- A task of the session goes on. While it has octets to write it depends on the pipe, unless its
time is over. -/
def taskStep (d : Dialogue) (t : LanguageClient.Task) : Option Dialogue :=
  let offer := offeredAtOnce d.session t
  let count := d.program.taking offer.length
  if offer.isEmpty || (count = 0 && !d.program.inputRefused) then
    (d.session.step t).map fun session => { d with session }
  else if d.program.inputRefused then
    some { d with session := d.session.apply (.refuse t brokenPipe) }
  else
    some {
      session := d.session.apply (.accept t count)
      program := d.program.give (offer.take count) }

/-- The program hears that there will be no more input, or it goes on, or what it has written
arrives at the client, or in the end the client hears that there will be no more. -/
def programStep (d : Dialogue) : Option Dialogue :=
  if d.session.closed && !d.program.inputEnded then
    some { d with program := { d.program with inputEnded := true } }
  else if d.program.output.size != 0 then
    let (bytes, program) := d.program.take d.program.output.size
    some { session := d.session.apply (.arrive bytes), program }
  else
    match d.program.step with
    | some program => some { d with program }
    | none =>
      if d.program.outputEnded && d.session.inbox.ending = .ongoing then
        some { d with session := d.session.apply (.endStream .closed) }
      else none

inductive Job where
  | task (t : LanguageClient.Task)
  | program
  deriving DecidableEq, Repr

def go (d : Dialogue) : Job → Option Dialogue
  | .task t => d.taskStep t
  | .program => d.programStep

def earlier : Option Nat → Option Nat → Option Nat
  | some a, some b => some (min a b)
  | a, b => a.or b

def system : Schedule.System Dialogue Job where
  tasks d := .program :: d.session.tasks.map .task
  go := go
  now d := d.session.now
  setNow d now := {
    session := { d.session with now }
    program := { d.program with now } }
  nextWake d := earlier d.session.nextWake d.program.nextWake

/-- Lets things happen, and time pass where nothing else can, until something holds. -/
def waitFor (stop : Dialogue → Bool) : Nat → Dialogue → Dialogue
  | 0, d => d
  | fuel + 1, d =>
    let d := system.settle d
    if stop d then d
    else
      match system.nextWake d with
      | some wake => waitFor stop fuel (system.setNow d wake)
      | none => d

def runCall (d : Dialogue) (n : Nat) : Dialogue :=
  d.waitFor (fun d => (Rehearsal.outcomeOf d.session n).isSome) Program.moments

def runUntilInterrupted (d : Dialogue) : Dialogue :=
  d.waitFor (·.program.interrupted) Program.moments

end Dialogue

end LanguageClient.Machine
