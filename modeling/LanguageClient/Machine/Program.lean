import LanguageClient.FileTree
import LanguageClient.Machine.Task
import LanguageClient.Text.Utf8

/-!
# Running programs, without a machine

A rehearsal can launch programs. A running program is a value: the process that was launched, the
processes that it has started, the pipes between them, and the files that they see. From outside one
sees what the launched process has written and how it has ended.

What is read and what is written goes through channels. A pipe ends when nobody can write to it any
more, and writing to a pipe that nobody can read from is answered by a signal.
-/

namespace LanguageClient.Machine

structure Buffer where
  parts : List (List Char) := []
  size : Nat := 0
  deriving Repr

namespace Buffer

def capacity : Nat := 65536

def octets (b : Buffer) : List Char := b.parts.reverse.flatten

def add (b : Buffer) (cs : List Char) : Buffer := ⟨cs :: b.parts, b.size + cs.length⟩

def drop (b : Buffer) (n : Nat) : Buffer := ⟨[b.octets.drop n], b.size - n⟩

end Buffer

structure OpenFile where
  path : String
  position : Nat := 0
  reads : Bool := false
  writes : Bool := false
  appends : Bool := false
  deriving Repr

structure Program where
  now : Nat := 0
  tasks : List Task := []
  next : Nat := 1001
  pipes : List (Nat × Buffer) := []
  openFiles : List (Nat × OpenFile) := []
  tree : FileTree := { directories := ["/"], files := [] }
  contents : List (String × List Char) := []
  input : Buffer := {}
  inputEnded : Bool := false
  output : Buffer := {}
  /-- Whether the launching client has been interrupted by one of the processes. -/
  interrupted : Bool := false

def textOfOctets (cs : List Char) : String :=
  let octets := cs.map fun c => UInt8.ofNat c.toNat
  String.ofList ((Text.Utf8.decode? octets).getD cs)

namespace Program

/-! ## Processes -/

def client : Nat := 999

def launched : Nat := 1000

def put (p : Program) (t : Task) : Program :=
  { p with tasks := p.tasks.map fun u => if u.number = t.number then t else u }

def task? (p : Program) (number : Nat) : Option Task := p.tasks.find? (·.number = number)

def fresh (p : Program) : Nat × Program := (p.next, { p with next := p.next + 1 })

def ended (p : Program) : Option WaitStatus := (p.task? launched).bind (·.ended)

def hasEnded (p : Program) : Bool := p.ended.isSome

def isHeld (p : Program) (c : Channel) : Bool := p.tasks.any (·.holds c)

def forget (p : Program) (numbers : List Nat) : Program :=
  { p with tasks := p.tasks.filter fun t =>
      !(numbers.contains t.number && t.ended.isSome && t.number != launched) }

/-- The statuses of processes, if all of them have ended. One that is not known counts as one that
could not be found. -/
def statuses (p : Program) (numbers : List Nat) : Option (List Nat) :=
  numbers.mapM fun n =>
    match p.task? n with
    | some t => t.ended.map statusOf
    | none => some 127

/-! ## Signals -/

def hit (t : Task) (n : Nat) : Task :=
  if t.ended.isSome || n = 0 then t
  else if n = Signals.kill then t.finish (.signalled n)
  else if n = Signals.pause then { t with paused := true }
  else if t.paused && n != Signals.goOn then { t with held := t.held ++ [n] }
  else if t.ignored.contains n then t
  else if (t.shell.traps.lookup n).isSome then { t with pending := t.pending ++ [n] }
  else
    match Signals.effectOf n with
    | .ending => t.finish (.signalled n)
    | .nothing => t
    | .pausing => { t with paused := true }

/-- A process is hit by a signal; one that pauses goes on if that is what the signal says. -/
def strike (t : Task) (n : Nat) : Task :=
  if n = Signals.goOn && t.paused then
    t.held.foldl hit (hit { t with paused := false, held := [] } n)
  else hit t n

/-- Sends a signal to a process, if there is one with that number. Of the signals to the client only
the one that interrupts it is taken down. -/
def send (p : Program) (number n : Nat) : Option Program :=
  if number = client then some { p with interrupted := p.interrupted || n = Signals.interrupt }
  else ((p.task? number).filter fun t => !t.waited || t.ended.isNone).map fun t => p.put (strike t n)

/-! ## Reading -/

inductive Supply where
  | waiting
  | ended
  | octets (cs : List Char)
  | refused
  deriving DecidableEq, Repr

def supply (p : Program) : Option Channel → Supply
  | some .input =>
    if p.input.size != 0 then .octets p.input.octets
    else if p.inputEnded then .ended else .waiting
  | some .nothing => .ended
  | some (.pipe true n) =>
    match p.pipes.lookup n with
    | some b =>
      if b.size != 0 then .octets b.octets
      else if p.isHeld (.pipe false n) then .waiting else .ended
    | none => .ended
  | some (.file n) =>
    match p.openFiles.lookup n with
    | some f =>
      if !f.reads then .refused
      else
        match ((p.contents.lookup f.path).getD []).drop f.position with
        | [] => .ended
        | cs => .octets cs
    | none => .refused
  | _ => .refused

def replace {α : Type} (entries : List (Nat × α)) (key : Nat) (value : α) : List (Nat × α) :=
  entries.map fun e => if e.1 = key then (key, value) else e

def consume (p : Program) (c : Option Channel) (count : Nat) : Program :=
  match c with
  | some .input => { p with input := p.input.drop count }
  | some (.pipe true n) =>
    match p.pipes.lookup n with
    | some b => { p with pipes := replace p.pipes n (b.drop count) }
    | none => p
  | some (.file n) =>
    match p.openFiles.lookup n with
    | some f =>
      { p with openFiles := replace p.openFiles n { f with position := f.position + count } }
    | none => p
  | _ => p

/-! ## Writing -/

inductive Delivery where
  | done (p : Program)
  | full
  | refused
  | broken

def overwrite (old : List Char) (position : Nat) (cs : List Char) : List Char :=
  old.take position ++ List.replicate (position - old.length) (Char.ofNat 0) ++ cs ++
    old.drop (position + cs.length)

def setContents (p : Program) (path : String) (cs : List Char) : Program :=
  { p with contents := (path, cs) :: p.contents.filter (·.1 != path) }

def deliver (p : Program) (c : Option Channel) (cs : List Char) : Delivery :=
  match c with
  | some .output =>
    if Buffer.capacity ≤ p.output.size then .full
    else .done { p with output := p.output.add cs }
  | some .messages | some .nothing => .done p
  | some (.pipe false n) =>
    if !p.isHeld (.pipe true n) then .broken
    else
      match p.pipes.lookup n with
      | some b =>
        if Buffer.capacity ≤ b.size then .full
        else .done { p with pipes := replace p.pipes n (b.add cs) }
      | none => .broken
  | some (.file n) =>
    match p.openFiles.lookup n with
    | some f =>
      if !f.writes then .refused
      else
        let old := (p.contents.lookup f.path).getD []
        let position := if f.appends then old.length else f.position
        let p := p.setContents f.path (overwrite old position cs)
        .done { p with
          openFiles := replace p.openFiles n { f with position := position + cs.length } }
    | none => .refused
  | _ => .refused

/-! ## Opening -/

def find (p : Program) (t : Task) (path : List Char) : Place :=
  p.tree.find t.directory (textOfOctets path)

def device? (t : Task) : String → Option Channel
  | "/dev/null" => some .nothing
  | "/dev/stdin" => t.channel 0
  | "/dev/stdout" => t.channel 1
  | "/dev/stderr" => t.channel 2
  | _ => none

def newPath (p : Program) (t : Task) (path : List Char) : Option String :=
  let text := textOfOctets path
  let (name, front) := text.toList.reverse.span (· != '/')
  let name := String.ofList name.reverse
  let directory := if front.isEmpty then Place.directory t.directory
    else p.tree.find t.directory (String.ofList front.reverse)
  match directory with
  | .directory canonical =>
    if name.isEmpty || Path.maxPart < name.utf8ByteSize then none
    else some (Path.ofReversed (name :: Path.reversed canonical))
  | _ => none

def openFile (p : Program) (t : Task) (opening : Opening) (path : List Char) :
    Option (Channel × Program) :=
  let made (file : OpenFile) (p : Program) : Channel × Program :=
    let (n, p) := p.fresh
    (.file n, { p with openFiles := (n, file) :: p.openFiles })
  let file (canonical : String) : OpenFile := match opening with
    | .writing | .overwriting => { path := canonical, writes := true }
    | .appending => { path := canonical, writes := true, appends := true }
    | .both => { path := canonical, reads := true, writes := true }
    | _ => { path := canonical, reads := true }
  match p.find t path with
  | .file canonical =>
    match device? t canonical with
    | some c => some (c, p)
    | none =>
      if opening = .writing ∧ t.shell.has 'C' then none
      else
        let empties := opening = .writing ∨ opening = .overwriting
        some (made (file canonical) (if empties then p.setContents canonical [] else p))
  | .missing =>
    if opening = .reading then none
    else
      (p.newPath t path).map fun canonical =>
        made (file canonical) { p with tree := { p.tree with files := canonical :: p.tree.files } }
  | _ => none

def makePipe (p : Program) : Nat × Program :=
  let (n, p) := p.fresh
  (n, { p with pipes := (n, {}) :: p.pipes })

end Program

end LanguageClient.Machine
