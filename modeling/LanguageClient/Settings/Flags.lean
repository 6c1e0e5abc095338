import LanguageClient.Settings.Json

/-!
# The command line

Every setting has a flag, and one more flag names a configuration file. A flag is written with two
dashes and its full name, or with one dash and its letter; its value follows after an equals sign,
as the next word, or, for a letter, directly.

The words are read from left to right, and the first problem is the one that is reported. A value
that comes as a word of its own is looked at only when the next flag begins or the command line
ends; so an unknown word right after it is noticed before the value is found to be wrong.
-/

namespace LanguageClient

inductive FlagFault where
  | badValue
  | unknownArgument
  | missingValue
  | repeated
  | unexpectedValue
  /-- Not a fault: somebody asks for help. -/
  | help
  deriving DecidableEq, Repr

def FlagFault.message : FlagFault → String
  | .badValue => "invalid value for a flag"
  | .unknownArgument => "unexpected argument found"
  | .missingValue => "a value is required for a flag but none was supplied"
  | .repeated => "a flag cannot be used multiple times"
  | .unexpectedValue => "unexpected value for a flag that takes none"
  | .help => "help requested"

inductive Flag where
  | mode
  | transport
  | serverCommand
  | host
  | port
  | logFilter
  | logFormat
  | configPath
  deriving DecidableEq, Repr

namespace Flag

def names : List (String × Flag) := [
  ("mode", .mode), ("transport", .transport), ("server-command", .serverCommand), ("host", .host),
  ("port", .port), ("log-filter", .logFilter), ("log-format", .logFormat),
  ("config-path", .configPath)]

def letters : List (Char × Flag) := [
  ('m', .mode), ('t', .transport), ('s', .serverCommand), ('H', .host), ('p', .port),
  ('l', .logFilter), ('L', .logFormat)]

end Flag

structure Flags where
  mode : Option LaunchMode := none
  transport : Option TransportKind := none
  serverCommand : Option String := none
  host : Option String := none
  port : Option UInt16 := none
  logFilter : Option String := none
  logFormat : Option LogFormat := none
  configPath : Option String := none
  deriving DecidableEq, Repr

namespace Flags

def once {α : Type} (old : Option α) (value : Option α) (fault : FlagFault) :
    Except FlagFault (Option α) :=
  match old, value with
  | some _, _ => .error .repeated
  | none, none => .error fault
  | none, some v => .ok (some v)

def readPort (text : String) : Option UInt16 :=
  (Text.readNumeral Text.maxWord16 text.toList).map UInt16.ofNat

def store (f : Flags) (flag : Flag) (value : String) : Except FlagFault Flags :=
  match flag with
  | .mode => do
    return { f with mode := ← once f.mode (LaunchMode.ofName? value) .badValue }
  | .transport => do
    return { f with transport := ← once f.transport (TransportKind.ofName? value) .badValue }
  | .serverCommand => do
    return { f with serverCommand := ← once f.serverCommand (some value) .badValue }
  | .host => do return { f with host := ← once f.host (some value) .badValue }
  | .port => do return { f with port := ← once f.port (readPort value) .badValue }
  | .logFilter => do return { f with logFilter := ← once f.logFilter (some value) .badValue }
  | .logFormat => do
    return { f with logFormat := ← once f.logFormat (LogFormat.ofName? value) .badValue }
  | .configPath => do
    let path := if value.isEmpty then none else some value
    return { f with configPath := ← once f.configPath path .missingValue }

/-- A flag whose value is a word of its own: the flag, and the word once it is there. -/
abbrev Waiting := Option (Flag × Option String)

/-- Looks at a value that came as a word of its own. -/
def settle (f : Flags) : Waiting → Except FlagFault Flags
  | none => .ok f
  | some (_, none) => .error .missingValue
  | some (flag, some value) => f.store flag value

inductive Word where
  /-- Two dashes and nothing else: no flags after this. -/
  | divider
  /-- Two dashes, a name, and the value after an equals sign. -/
  | long (name : String) (value : Option String)
  /-- One dash, a letter, and what follows it. -/
  | short (letter : Char) (rest : List Char)
  | plain (text : String)
  deriving DecidableEq, Repr

def divideAtEquals (cs : List Char) : List Char × Option (List Char) :=
  match cs.span (· != '=') with
  | (name, _ :: value) => (name, some value)
  | (name, []) => (name, none)

def wordOf (arg : String) : Word :=
  match arg.toList with
  | ['-', '-'] => .divider
  | '-' :: '-' :: rest =>
    let (name, value) := divideAtEquals rest
    .long (String.ofList name) (value.map String.ofList)
  | '-' :: letter :: rest => .short letter rest
  | _ => .plain arg

/-- The value that directly follows a letter; an equals sign in front does not belong to it. -/
def attachedValue : List Char → Option String
  | [] => none
  | '=' :: value => some (String.ofList value)
  | value => some (String.ofList value)

def beginFlag (f : Flags) (waiting : Waiting) (flag : Flag) (value : Option String) :
    Except FlagFault (Flags × Waiting) := do
  let f ← f.settle waiting
  match value with
  | some v => return (← f.store flag v, none)
  | none => return (f, some (flag, none))

def askForHelp (f : Flags) (waiting : Waiting) : FlagFault :=
  match f.settle waiting with
  | .ok _ => .help
  | .error fault => fault

def read (f : Flags) (waiting : Waiting) : List String → Except FlagFault Flags
  | [] => f.settle waiting
  | arg :: rest =>
    match wordOf arg with
    | .divider =>
      match rest with
      | [] => f.settle waiting
      | _ => .error .unknownArgument
    | .long name value =>
      if name = "help" then
        match value with
        | none => .error (f.askForHelp waiting)
        | some _ => .error .unexpectedValue
      else
        match Flag.names.lookup name with
        | none => .error .unknownArgument
        | some flag =>
          match f.beginFlag waiting flag value with
          | .error fault => .error fault
          | .ok (f, waiting) => f.read waiting rest
    | .short letter attached =>
      if letter = 'h' then .error (f.askForHelp waiting)
      else
        match Flag.letters.lookup letter with
        | none => .error .unknownArgument
        | some flag =>
          match f.beginFlag waiting flag (attachedValue attached) with
          | .error fault => .error fault
          | .ok (f, waiting) => f.read waiting rest
    | .plain text =>
      match waiting with
      | some (flag, none) => f.read (some (flag, some text)) rest
      | _ => .error .unknownArgument

def parse (args : List String) : Except FlagFault Flags := ({} : Flags).read none (args.drop 1)

/-- Whether the command line gives every setting the value it has anyway. -/
def repeatsDefaults (f : Flags) : Bool :=
  let d := Settings.default
  f.mode == some d.mode && f.transport == some d.transport &&
    f.serverCommand == some d.serverCommand && f.host == some d.host && f.port == some d.port &&
    f.logFilter == some d.logFilter && f.logFormat == some d.logFormat

def members (f : Flags) : List (String × Json) :=
  (f.mode.map fun v => ("mode", Json.str v.name)).toList ++
  (f.transport.map fun v => ("transport", Json.str v.name)).toList ++
  (f.serverCommand.map fun v => ("server_command", Json.str v)).toList ++
  (f.host.map fun v => ("host", Json.str v)).toList ++
  (f.port.map fun v => ("port", Json.ofNat v.toNat)).toList ++
  (f.logFilter.map fun v => ("log_filter", Json.str v)).toList ++
  (f.logFormat.map fun v => ("log_format", Json.str v.name)).toList

/-- The layer of settings that a command line stands for. One that repeats all defaults counts as
one that says nothing. -/
def layer (f : Flags) : Json :=
  if f.repeatsDefaults then .obj [] else Json.ofMembers f.members

end Flags

end LanguageClient
