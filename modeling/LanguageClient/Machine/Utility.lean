import LanguageClient.Machine.Condition
import LanguageClient.Machine.Format
import LanguageClient.Machine.Program

/-!
# Programs that can be launched

The programs of the machine: a shell, one that copies its input to its output, one that sleeps, some
that print, and some that only succeed or fail. A process becomes a program by getting other things
to do.
-/

namespace LanguageClient.Machine

inductive Located where
  | program (name : String)
  | missing
  | notAllowed
  | blocked
  | tooLong
  deriving DecidableEq, Repr

namespace Utility

def names : List String :=
  ["sh", "dash", "cat", "sleep", "printf", "echo", "true", "false", "test", "[", "env", "pwd"]

def directory : String := "/usr/bin"

def locateAt (tree : FileTree) (here path : String) : Located :=
  match tree.find here path with
  | .file canonical =>
    match names.find? fun n => canonical == directory ++ "/" ++ n with
    | some n => .program n
    | none => .notAllowed
  | .directory _ => .notAllowed
  | .missing => .missing
  | .blocked => .blocked
  | .tooLong => .tooLong

/-- The directories of a search path; an empty one is the directory of the process. -/
def searchPath (path : List Char) : List String :=
  (path.splitOn ':').map fun part => if part.isEmpty then "." else textOfOctets part

/-- Looks for a program. A path is followed; a name is looked for in the directories of a search
path. If there is something of that name that is no program it depends on whether there is a program
too. -/
def locate (tree : FileTree) (here : String) (path : List Char) (name : String) : Located :=
  if name.toList.contains '/' then locateAt tree here name
  else if name.isEmpty then .missing
  else if Path.maxPart < name.utf8ByteSize then .tooLong
  else
    let found := (searchPath path).map fun d => locateAt tree here (d ++ "/" ++ name)
    let isProgram : Located → Bool
      | .program _ => true
      | _ => false
    match found.find? isProgram with
    | some l => l
    | none => if found.contains .notAllowed then .notAllowed else .missing

def pathName : List Char := octetsOf "PATH"

def pathOf (environment : List (List Char × List Char)) : List Char :=
  (environment.lookup pathName).getD (octetsOf "/usr/bin")

def horizon : Nat := 3600 * 1000000000

/-! ## Sleeping -/

def unitOf : List Char → Option Nat
  | [] | ['s'] => some 1
  | ['m'] => some 60
  | ['h'] => some 3600
  | ['d'] => some 86400
  | _ => none

def readDuration (cs : List Char) : Option Nat :=
  let digits := match cs with
    | '+' :: rest => rest
    | _ => cs
  let name := String.ofList (digits.map Char.toLower)
  if name = "infinity" ∨ name = "inf" then some horizon
  else
    let (value, power, count, rest) := Format.readPointed digits
    if count = 0 then none
    else
      (unitOf rest).map fun unit =>
        let num := value * unit * 1000000000 * Nat.pow 10 power.toNat
        let den := Nat.pow 10 (-power).toNat
        (num + den - 1) / den

def readDurations (args : List (List Char)) : Option Nat :=
  (args.mapM readDuration).map (·.foldl (· + ·) 0)

/-! ## Printing -/

def joinWords (words : List (List Char)) : List Char := (words.intersperse [' ']).flatten

/-- The options at the front of the arguments of the program that prints its arguments: whether the
line is left open, and whether escapes are carried out. -/
def echoOptions : Bool → Bool → List (List Char) → Bool × Bool × List (List Char)
  | quiet, escapes, ('-' :: c :: cs) :: rest =>
    if (c :: cs).all fun c => c = 'n' || c = 'e' || c = 'E' then
      let last := (c :: cs).reverse.find? fun c => c != 'n'
      echoOptions (quiet || (c :: cs).contains 'n')
        (match last with
          | some c => c = 'e'
          | none => escapes) rest
    else (quiet, escapes, ('-' :: c :: cs) :: rest)
  | quiet, escapes, args => (quiet, escapes, args)

def echo (args : List (List Char)) : List Char :=
  let (quiet, escapes, args) := echoOptions false false args
  let text := joinWords args
  if escapes then
    let (text, ended) := Format.unescape { hex := true } (text.length + 1) text
    if quiet || ended then text else text ++ ['\n']
  else if quiet then text else text ++ ['\n']

/-- What the shell's own command that prints its arguments writes: escapes are always carried out.
-/
def shellEcho (args : List (List Char)) : List Char :=
  let (quiet, args) := match args with
    | ['-', 'n'] :: rest => (true, rest)
    | _ => (false, args)
  let text := joinWords args
  let (text, ended) := Format.unescape {} (text.length + 1) text
  if quiet || ended then text else text ++ ['\n']

/-! ## Conditions -/

def files (p : Program) (t : Task) : Condition.Files where
  ask letter path :=
    let place := p.find t path
    let isDirectory := match place with
      | .directory _ => true
      | _ => false
    let file := match place with
      | .file canonical => some canonical
      | _ => none
    let isDevice := (file.map fun f => "/dev/".isPrefixOf f).getD false
    match letter with
    | 'e' | 'r' | 'w' => isDirectory || file.isSome
    | 'd' => isDirectory
    | 'f' => file.isSome && !isDevice
    | 'c' => isDevice
    | 'x' => isDirectory || (file.map fun f => (directory ++ "/").isPrefixOf f).getD false
    | 's' => isDirectory ||
        (file.map fun f => !isDevice && p.contents.lookup f != some []).getD false
    | 'h' | 'L' =>
      let name := textOfOctets path
      let whole := if Path.isAbsolute name then name else Path.join t.directory name
      (p.tree.links.lookup whole).isSome
    | 'G' | 'O' => isDirectory || file.isSome
    | _ => false
  same a b :=
    match p.find t a, p.find t b with
    | .file f, .file g => f == g
    | .directory f, .directory g => f == g
    | _, _ => false

def condition (p : Program) (t : Task) (name : String) (args : List (List Char)) : Nat :=
  if name = "[" then
    if args.getLast? = some [']'] then Condition.status (files p t) args.dropLast else 2
  else Condition.status (files p t) args

/-! ## The shell -/

structure Start where
  given : Bool := false
  input : Bool := false
  options : List Char := []
  deriving Repr

def switch (on : Bool) (options : List Char) (c : Char) : List Char :=
  let others := options.filter (· != c)
  if on then others ++ [c] else others

def switchAll (on : Bool) (options letters : List Char) : Option (List Char) :=
  if letters.all Shell.optionLetters.contains then some (letters.foldl (switch on) options)
  else none

def startOptions : Start → List (List Char) → Option (Start × List (List Char))
  | s, ['-', '-'] :: rest | s, ['-'] :: rest => some (s, rest)
  | s, (sign :: c :: cs) :: rest =>
    if sign = '-' || sign = '+' then
      let on := sign = '-'
      let letters := c :: cs
      (switchAll on s.options (letters.filter (· != 'c'))).bind fun options =>
        startOptions {
          given := s.given || (on && letters.contains 'c')
          input := s.input || (on && letters.contains 's')
          options } rest
    else some (s, (sign :: c :: cs) :: rest)
  | s, args => some (s, args)

def becomeShell (p : Program) (t : Task) (name : List Char) (args : List (List Char))
    (environment : List (List Char × List Char)) : Task :=
  let own := [("PWD", octetsOf t.directory), ("PPID", Text.numeral t.parent),
    ("IFS", [' ', '\t', '\n'])]
  let shell (options : List Char) (name : List Char) (arguments : List (List Char)) : Shell := {
    name
    arguments
    bindings := own.foldl (fun e (name, value) => Shell.bind e (octetsOf name) value) environment
    exported := (environment.map (·.1)).eraseDups
    options
    deaf := t.ignored
    directory := t.directory
    process := t.number }
  let ready (s : Shell) (acts : List Act) : Task :=
    { t with shell := s, todo := acts, isPart := false, loopsAround := 0 }
  match startOptions {} args with
  | none => (ready {} []).done 2
  | some (s, rest) =>
    if s.given then
      match rest with
      | [] => (ready {} []).done 2
      | script :: rest =>
        ready (shell s.options (rest.headD name) rest.tail) [.interpret false script]
    else if s.input || rest.isEmpty then
      ready (shell (switch true s.options 's') name rest) [.interpretInput []]
    else
      match p.find t (rest.headD []) with
      | .file canonical =>
        ready (shell s.options (rest.headD []) rest.tail)
          [.interpret false ((p.contents.lookup canonical).getD [])]
      | _ => (ready {} []).done 2

/-! ## All programs -/

def withAssignments (environment : List (List Char × List Char)) :
    List (List Char) → List (List Char × List Char) × List (List Char)
  | [] => (environment, [])
  | arg :: rest =>
    match arg.span (· != '=') with
    | (name, _ :: value) => withAssignments (Shell.bind environment name value) rest
    | (_, []) => (environment, arg :: rest)

def become (p : Program) (t : Task) (program : String) (name : List Char) (args : List (List Char))
    (environment : List (List Char × List Char)) : Task :=
  let bare : Task := { t with
    shell := {}
    todo := []
    pending := []
    isPart := false
    loopsAround := 0 }
  let plain := match args with
    | ['-', '-'] :: rest => rest
    | _ => args
  match program with
  | "sh" | "dash" => becomeShell p bare name args environment
  | "cat" =>
    let plain := args.filter fun a => a != ['-', 'u'] && a != ['-', '-']
    bare.push [.copy (if plain.isEmpty then [['-']] else plain) 0, .quit]
  | "sleep" =>
    match if args.isEmpty then none else readDurations plain with
    | some time => bare.push [.sleepUntil (p.now + time), .quit]
    | none => bare.done 1
  | "printf" =>
    match plain with
    | [] => bare.done 1
    | format :: rest =>
      let (text, status) := Format.print Format.program format rest
      bare.push [.write text status, .quit]
  | "echo" => bare.push [.write (echo args) 0, .quit]
  | "pwd" => bare.push [.write (octetsOf t.directory ++ ['\n']) 0, .quit]
  | "false" => bare.done 1
  | "test" | "[" => bare.done (condition p t program args)
  | "env" =>
    let (start, args) := match args with
      | ['-', 'i'] :: rest | ['-'] :: rest => ([], rest)
      | _ => (environment, args)
    match withAssignments start args with
    | (environment, []) =>
      let lines := environment.map fun (name, value) => name ++ '=' :: value ++ ['\n']
      bare.push [.write lines.flatten 0, .quit]
    | (environment, words) => bare.push [.execute words environment]
  | _ => bare

end Utility

end LanguageClient.Machine
