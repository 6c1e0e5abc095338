import LanguageClient.Machine.Script
import LanguageClient.Text.Numeral

/-!
# What a shell remembers

A shell that runs a script remembers its variables, its arguments, the functions that were defined,
how the last command ended, what is to be done when signals arrive, and where it is.
-/

namespace LanguageClient.Machine

structure Shell where
  name : List Char := octetsOf "sh"
  arguments : List (List Char) := []
  bindings : List (List Char × List Char) := []
  exported : List (List Char) := []
  functions : List (List Char × Command) := []
  /-- For every function that is running, what variables were before it made them its own. -/
  frames : List (List (List Char × Option (List Char))) := []
  status : Nat := 0
  options : List Char := []
  /-- What is done when a signal arrives, by number; zero is the end of the script. -/
  traps : List (Nat × List Char) := []
  /-- The signals that were ignored when the shell was started; that cannot be changed. -/
  deaf : List Nat := []
  directory : String := "/"
  process : Nat := 0
  lastBackground : Option Nat := none
  /-- While something is done because of a signal or at the end: how the last command before ended.
  -/
  before : Option Nat := none

namespace Shell

def optionLetters : List Char := "efIimnsxvVECabupl".toList

def separatorsName : List Char := ['I', 'F', 'S']

def separators (s : Shell) : List Char :=
  (s.bindings.lookup separatorsName).getD [' ', '\t', '\n']

def joint (s : Shell) : List Char := s.separators.take 1

def joined (s : Shell) : List Char := (s.arguments.intersperse s.joint).flatten

def has (s : Shell) (option : Char) : Bool := s.options.contains option

/-- The letters of the options that are switched on, in reverse order of the table. -/
def flags (s : Shell) : List Char := (optionLetters.filter s.has).reverse

def value? (s : Shell) (name : List Char) : Option (List Char) :=
  match name with
  | ['@'] | ['*'] => some s.joined
  | ['#'] => some (Text.numeral s.arguments.length)
  | ['?'] => some (Text.numeral s.status)
  | ['$'] => some (Text.numeral s.process)
  | ['!'] => s.lastBackground.map Text.numeral
  | ['-'] => some s.flags
  | _ =>
    match Text.digitsValue 0 name with
    | some 0 => some s.name
    | some (n + 1) => s.arguments[n]?
    | none => s.bindings.lookup name

def bind (bindings : List (List Char × List Char)) (name value : List Char) :
    List (List Char × List Char) :=
  (name, value) :: bindings.filter (·.1 != name)

def set (s : Shell) (name value : List Char) : Shell :=
  let exported := if s.has 'a' && !s.exported.contains name then name :: s.exported else s.exported
  { s with bindings := bind s.bindings name value, exported }

def unset (s : Shell) (name : List Char) : Shell :=
  { s with
    bindings := s.bindings.filter (·.1 != name)
    exported := s.exported.filter (· != name) }

def expose (s : Shell) (name : List Char) : Shell :=
  if s.exported.contains name then s else { s with exported := name :: s.exported }

/-- What a variable was is put down, so that it is that again when the running function is done. -/
def keep (s : Shell) (name : List Char) : Shell :=
  match s.frames with
  | [] => s
  | frame :: rest =>
    if (frame.lookup name).isSome then s
    else { s with frames := ((name, s.bindings.lookup name) :: frame) :: rest }

def leaveFrame (s : Shell) : Shell :=
  match s.frames with
  | [] => s
  | frame :: rest =>
    let bindings := frame.foldl (fun bindings (name, before) =>
      match before with
      | some value => bind bindings name value
      | none => bindings.filter (·.1 != name)) s.bindings
    { s with frames := rest, bindings }

def environment (s : Shell) : List (List Char × List Char) :=
  s.bindings.filter fun (name, _) => s.exported.contains name

/-- What a shell remembers in a process of its own: what it does when signals arrive is forgotten,
unless it ignores them. -/
def forked (s : Shell) : Shell :=
  { s with traps := s.traps.filter fun (_, action) => action.isEmpty }

end Shell

end LanguageClient.Machine
