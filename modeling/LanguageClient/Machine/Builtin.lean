import LanguageClient.Machine.Script.Reader
import LanguageClient.Machine.Utility

/-!
# Commands of the shell itself

Some commands are carried out by the shell. Those that have to do with the script itself are
*special*: a mistake in one of them ends the script, and assignments before one of them last.
-/

namespace LanguageClient.Machine.Builtin

def special : List String := Script.specialNames

def regular : List String :=
  ["[", "alias", "cd", "command", "echo", "false", "hash", "jobs", "kill", "local", "printf", "pwd",
    "read", "test", "true", "ulimit", "umask", "unalias", "wait"]

def maxNumber : Nat := 2147483647

def number? (cs : List Char) : Option Nat :=
  if cs.head? = some '+' then none else Text.readNumeral maxNumber cs

def say (t : Task) (text : List Char) (status : Nat) : Task := t.push [.write text status]

/-! ## Variables and arguments -/

def splitAssignment (cs : List Char) : List Char × Option (List Char) :=
  match cs.span (· != '=') with
  | (name, _ :: value) => (name, some value)
  | (name, []) => (name, none)

def forEach (f : Shell → List Char → Option Shell) (t : Task) (args : List (List Char)) : Task :=
  match args.foldlM f t.shell with
  | some shell => { t with shell }.done 0
  | none => t.fail

/-- Sets a variable if there is a value for it, once it is prepared for that. -/
def assign (prepare : List Char → Shell → Shell) (s : Shell) (arg : List Char) : Option Shell :=
  let (name, value) := splitAssignment arg
  let s := prepare name s
  if !isName name then none else some ((value.map (s.set name)).getD s)

def unset (t : Task) (args : List (List Char)) : Task :=
  match args with
  | ['-', 'f'] :: rest =>
    { t with shell := { t.shell with
      functions := t.shell.functions.filter fun f => !rest.contains f.1 } }.done 0
  | _ => forEach (fun s name => if isName name then some (s.unset name) else none) t args

def shift (t : Task) (args : List (List Char)) : Task :=
  match (args.head?.map number?).getD (some 1) with
  | none => t.fail
  | some n =>
    if t.shell.arguments.length < n then t.fail
    else { t with shell := { t.shell with arguments := t.shell.arguments.drop n } }.done 0

def setOptions : Shell → List (List Char) → Option (Shell × Option (List (List Char)))
  | s, [] => some (s, none)
  | s, ['-', '-'] :: rest => some (s, some rest)
  | s, (sign :: c :: cs) :: rest =>
    if sign = '-' || sign = '+' then
      (Utility.switchAll (sign = '-') s.options (c :: cs)).bind fun options =>
        setOptions { s with options } rest
    else some (s, some ((sign :: c :: cs) :: rest))
  | s, args => some (s, some args)

def set (t : Task) (args : List (List Char)) : Task :=
  match setOptions t.shell args with
  | none => t.fail
  | some (shell, none) => { t with shell }.done 0
  | some (shell, some arguments) => { t with shell := { shell with arguments } }.done 0

/-! ## Signals -/

/-- Arranges for a signal; one that was ignored from the beginning stays so. -/
def arrange (t : Task) (action : Option (List Char)) (n : Nat) : Task :=
  let others := t.shell.traps.filter (·.1 != n)
  let traps := match action with
    | some a => others ++ [(n, a)]
    | none => others
  if t.shell.deaf.contains n then t
  else
    let heard := t.ignored.filter (· != n)
    let fixed := n = 0 || n = Signals.kill || n = Signals.pause
    { t with
      shell := { t.shell with traps }
      ignored := if action = some [] && !fixed then n :: heard else heard }

def arrangeAll (action : Option (List Char)) : Task → List (List Char) → Task
  | t, [] => t.done 0
  | t, name :: rest =>
    match Signals.numberOf? name with
    | some n => arrangeAll action (arrange t action n) rest
    | none => t.done 1

def trap (t : Task) (args : List (List Char)) : Task :=
  let args := if args.head? = some ['-', '-'] then args.tail else args
  match args with
  | [] | [_] => arrangeAll none t args
  | action :: names =>
    if (number? action).isSome && (Signals.numberOf? action).isSome then arrangeAll none t args
    else arrangeAll (if action = ['-'] then none else some action) t names

def sendable? (name : List Char) : Option Nat :=
  (Signals.numberOf? name).filter fun n => n != 0 || name.all Char.isDigit

def signalOption : List (List Char) → Option (Nat × List (List Char))
  | ['-', '-'] :: rest => some (Signals.terminate, rest)
  | ['-', 's'] :: name :: rest => (sendable? name).map (·, rest)
  | ('-' :: 's' :: name) :: rest => ((sendable? ('s' :: name)).or (sendable? name)).map (·, rest)
  | ('-' :: name) :: rest => (sendable? name).map (·, rest)
  | args => some (Signals.terminate, args)

def sendAll (signal : Nat) : Program → Nat → List (List Char) → Option (Program × Nat)
  | p, status, [] => some (p, status)
  | p, status, arg :: rest =>
    match arg with
    | '-' :: digits => (number? digits).bind fun _ => sendAll signal p 1 rest
    | _ =>
      (number? arg).bind fun n =>
        match p.send n signal with
        | some p => sendAll signal p status rest
        | none => sendAll signal p 1 rest

def kill (p : Program) (t : Task) (args : List (List Char)) : Program :=
  match signalOption args with
  | none | some (_, []) => p.put (t.done 2)
  | some (signal, targets) =>
    match sendAll signal (p.put t) 0 targets with
    | none => p.put (t.done 2)
    | some (p, status) => ((p.task? t.number).map fun u => p.put (u.done status)).getD p

/-! ## Directories -/

/-- A path as a shell names it: seen from a directory, and without detours. -/
def namedPath (directory path : String) : String :=
  let start := if Path.isAbsolute path then [] else Path.reversed directory
  Path.ofReversed ((Path.parts path).foldl (fun way part =>
    if part = "" ∨ part = "." then way
    else if part = ".." then way.tail
    else part :: way) start)

def hereName : List Char := octetsOf "PWD"

def beforeName : List Char := octetsOf "OLDPWD"

def enter (p : Program) (t : Task) (physical spoken : Bool) (path : List Char) : Task :=
  let named := if physical then Path.join t.directory (textOfOctets path)
    else namedPath t.shell.directory (textOfOctets path)
  match p.tree.find t.directory named with
  | .directory canonical =>
    let name := if physical then canonical else named
    let bindings := Shell.bind (Shell.bind t.shell.bindings beforeName (octetsOf t.shell.directory))
      hereName (octetsOf name)
    let shell := { t.shell with directory := name, bindings }
    let t := { t with directory := canonical, shell }
    if spoken then say t (octetsOf name ++ ['\n']) 0 else t.done 0
  | _ => t.done 2

def cd (p : Program) (t : Task) (args : List (List Char)) : Task :=
  let physical := args.head? = some ['-', 'P']
  let args := args.dropWhile fun a => a = ['-', 'P'] || a = ['-', 'L'] || a = ['-', '-']
  match args with
  | [] =>
    match t.shell.bindings.lookup Expansion.homeName with
    | some home => enter p t physical false home
    | none => t.done 2
  | ['-'] :: _ =>
    match t.shell.bindings.lookup beforeName with
    | some before => enter p t physical true before
    | none => t.done 2
  | path :: _ => enter p t physical false path

/-! ## Reading lines -/

/-- The line at the front of some octets, up to a line feed, and how many octets it takes up; if
there will be no more octets, `final`, it can also end with them. Unless the line is `raw`, a
backslash quotes what follows it, and joins lines. -/
def takeLine (raw final : Bool) : Nat → List Char → Option (List Glyph × Nat)
  | 0, _ => none
  | _, [] => if final then some ([], 0) else none
  | fuel + 1, c :: rest =>
    if c = '\n' then some ([], 1)
    else if c = '\\' && !raw then
      match rest with
      | [] => if final then some ([], 1) else none
      | e :: more =>
        (takeLine raw final fuel more).map fun (line, n) =>
          (if e = '\n' then line else ⟨e, true⟩ :: line, n + 2)
    else (takeLine raw final fuel rest).map fun (line, n) => (⟨c, false⟩ :: line, n + 1)

def divides (separators : List Char) (g : Glyph) : Bool := !g.quoted && separators.contains g.char

def dividesAsBlank (separators : List Char) (g : Glyph) : Bool :=
  divides separators g && Expansion.isBlank g.char

structure FieldEnd where
  cut : Option Nat := none
  /-- Whether a separator that is no blank may still belong to that end. -/
  loose : Bool := false
  seen : Bool := false

/-- Looks at one more character of the last field, which stands at some position. What is quoted
does not count. -/
def FieldEnd.look (separators : List Char) (e : FieldEnd) (entry : Glyph × Nat) : FieldEnd :=
  let (g, position) := entry
  if g.quoted then e
  else if !e.seen then
    if divides separators g then
      { cut := some position, loose := dividesAsBlank separators g, seen := true }
    else e
  else if dividesAsBlank separators g then { e with cut := e.cut.or (some position) }
  else
    { e with
      cut := if divides separators g && e.loose then e.cut else none
      loose := false }

/-- The last field of a line. If nothing but what ends one field follows it, that is left out;
otherwise it has all that is left, up to the blanks at the end. -/
def lastField (separators : List Char) (line : List Glyph) : List Char :=
  let found := line.zipIdx.foldl (FieldEnd.look separators) {}
  ((found.cut.map line.take).getD line).map (·.char)

def lineFields (separators : List Char) : Nat → List Glyph → List (List Char)
  | 0, _ => []
  | 1, line => [lastField separators line]
  | n + 1, line =>
    let (field, rest) := line.span fun g => !divides separators g
    let rest := match rest.dropWhile (dividesAsBlank separators) with
      | g :: more => if divides separators g then more else g :: more
      | [] => []
    field.map (·.char) :: lineFields separators n (rest.dropWhile (dividesAsBlank separators))

def assignLine (t : Task) (names : List (List Char)) (line : List Glyph) (status : Nat) : Task :=
  let separators := t.shell.separators
  let line := line.dropWhile (dividesAsBlank separators)
  let fields := lineFields separators names.length line
  let shell := (names.zip fields).foldl (fun s (name, value) => s.set name value) t.shell
  { t with shell }.done status

def read (t : Task) (args : List (List Char)) : Task :=
  let rec options : Bool → List (List Char) → Option (Bool × List (List Char))
    | raw, ['-', '-'] :: rest => some (raw, rest)
    | _, ['-', 'r'] :: rest => options true rest
    | raw, ['-', 'p'] :: _ :: rest => options raw rest
    | raw, ('-' :: c :: cs) :: rest =>
      if c = 'p' then options raw rest
      else if (c :: cs).all (· = 'r') then options true rest
      else none
    | raw, args => some (raw, args)
  match options false args with
  | some (raw, name :: names) =>
    if (name :: names).all isName then t.push [.readLine raw (name :: names)] else t.done 2
  | _ => t.done 2

/-! ## The rest -/

/-- What is run under a name: a word or a command of the shell, a function, or a program. -/
def meaning (p : Program) (t : Task) (name : List Char) : Option (List Char) :=
  let text := textOfOctets name
  if (Script.keywords ++ special ++ regular).contains text ||
      t.shell.functions.any (·.1 == name) then some name
  else
    match Utility.locate p.tree t.directory (Utility.pathOf t.shell.bindings) text with
    | .program program =>
      some (if name.contains '/' then name else octetsOf (Utility.directory ++ "/" ++ program))
    | _ => none

def loopCount (t : Task) (args : List (List Char)) : Option Nat :=
  match args with
  | [] => some (min 1 t.loops)
  | arg :: _ => (number? arg).bind fun n => if n = 0 then none else some (min n t.loops)

/-- What a command makes of the process that runs it; `tested` if the command may fail. -/
def outcome (p : Program) (t : Task) (tested : Bool) (name : String) (args : List (List Char)) :
    Task :=
  match name with
  | ":" | "true" | "alias" | "unalias" | "hash" | "jobs" => t.done 0
  | "umask" => say t (octetsOf (if args.isEmpty then "0022\n" else "")) 0
  | "ulimit" => say t (octetsOf "unlimited\n") 0
  | "times" => say t (octetsOf "0m0.000000s 0m0.000000s\n0m0.000000s 0m0.000000s\n") 0
  | "false" => t.done 1
  | "echo" => say t (Utility.shellEcho args) 0
  | "printf" =>
    match if args.head? = some ['-', '-'] then args.tail else args with
    | [] => t.done 2
    | format :: rest =>
      if args.head?.any fun a => a.head? = some '-' && 2 ≤ a.length && a != ['-', '-'] then t.done 2
      else
        let (text, status) := Format.print Format.builtin format rest
        say t text status
  | "test" | "[" => t.done (Utility.condition p t name args)
  | "pwd" =>
    let path := if args.head? = some ['-', 'P'] then t.directory else t.shell.directory
    say t (octetsOf path ++ ['\n']) 0
  | "cd" => cd p t args
  | "read" => read t args
  | "local" =>
    if t.shell.frames.isEmpty then t.fail
    else forEach (assign fun name s => s.keep name) t args
  | "wait" =>
    match args.mapM number? with
    | none => t.done 2
    | some [] => t.push [.awaitStarted none]
    | some numbers => t.push [.awaitStarted (some numbers)]
  | "command" =>
    match args with
    | _ :: name :: _ =>
      match meaning p t name with
      | some what => say t (what ++ ['\n']) 0
      | none => t.done 127
    | _ => t.done 0
  | "break" =>
    match loopCount t args with
    | none => t.fail
    | some n => (t.done 0).breakLoops n
  | "continue" =>
    match loopCount t args with
    | none => t.fail
    | some 0 => t.done 0
    | some n => (t.done 0).continueLoop n
  | "eval" =>
    let text := Utility.joinWords args
    let isBlank := text.all fun c => c = ' ' || c = '\t' || c = '\n'
    (t.done (if isBlank then 0 else t.shell.status)).push [.interpret tested text]
  | "." =>
    match args with
    | [] => t.fail
    | path :: _ =>
      match p.find t path with
      | .file canonical =>
        (t.done 0).push [.interpret tested ((p.contents.lookup canonical).getD []), .endSource]
      | _ => t.fail
  | "exit" =>
    match args with
    | [] => t.exit (t.shell.before.getD t.shell.status)
    | code :: _ =>
      match number? code with
      | some n => t.exit n
      | none => t.fail
  | "return" =>
    match (args.head?.map number?).getD (some t.shell.status) with
    | none => t.fail
    | some n =>
      if t.todo.any Task.isReturnPoint then Task.unwind Task.isReturnPoint (t.done n) t.todo
      else t.exit n
  | "export" => forEach (assign fun name s => s.expose name) t args
  | "readonly" => forEach (assign fun _ s => s) t args
  | "unset" => unset t args
  | "shift" => shift t args
  | "set" => set t args
  | "trap" => trap t args
  | _ => t.done 127

def carryOut (p : Program) (t : Task) (tested : Bool) (name : String) (args : List (List Char)) :
    Program :=
  if name = "kill" then kill p t args else p.put (outcome p t tested name args)

end LanguageClient.Machine.Builtin
