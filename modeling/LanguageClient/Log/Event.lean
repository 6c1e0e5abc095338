import LanguageClient.Json.Basic

/-!
# Log events

Whatever the library does that is worth telling about is told as an event: a level, the part of the
library it comes from, a message and some named values. What becomes of an event (dropped, a line of
text, a line of JSON) is decided elsewhere. A value that is absent is left out when the event is
made, so the list of values is exactly what will be shown; only the name of the field is kept.
-/

namespace LanguageClient.Log

/-- How important an event is, the least important first. -/
inductive Level where
  | debug
  | info
  | warn
  | error
  deriving DecidableEq, Repr

def Level.name : Level → String
  | .debug => "DEBUG"
  | .info => "INFO"
  | .warn => "WARN"
  | .error => "ERROR"

inductive Target where
  | session
  | activation
  | transport
  | supervisor
  | program
  deriving DecidableEq, Repr

def Target.name : Target → String
  | .session => "session"
  | .activation => "activation"
  | .transport => "transport"
  | .supervisor => "supervisor"
  | .program => "client"

/-- A text that is data is quoted by some formats; one that was made for showing never is. -/
inductive Value where
  | text (s : String)
  | shown (s : String)
  | int (n : Int)
  deriving DecidableEq, Repr

structure Event where
  level : Level
  target : Target
  message : String
  fields : List (String × Value) := []
  absent : List String := []
  deriving DecidableEq, Repr

/-- Whether an event has a field, with a value or without; every event has its message. -/
def Event.hasField (e : Event) (name : String) : Bool :=
  name == "message" || e.fields.any (·.1 == name) || e.absent.contains name

def Value.plain : Value → String
  | .text s => s
  | .shown s => s
  | .int n => toString n

def Event.plain (e : Event) : String :=
  e.fields.foldl (fun line f => line ++ " " ++ f.1 ++ "=" ++ f.2.plain)
    (e.level.name ++ " " ++ e.target.name ++ ": " ++ e.message)

def Event.withOptional (e : Event) (name : String) : Option String → Event
  | none => { e with absent := e.absent ++ [name] }
  | some s => { e with fields := e.fields ++ [(name, .text s)] }

end LanguageClient.Log
