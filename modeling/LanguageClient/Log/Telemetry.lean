import LanguageClient.Json.Printer
import LanguageClient.Log.Filter
import LanguageClient.Settings.Basic
import LanguageClient.Text.Quoted

/-!
# Log lines

Log events become lines when there is somebody to write them. A *subscriber* has a filter and a
format and is installed once for the whole program: the first attempt that succeeds counts, and
later ones leave everything as it is. Somebody else may have installed one before; then every
attempt fails.
-/

namespace LanguageClient.Log

/-- A value in a line of text: data is quoted, anything made for showing is not. -/
def Value.compact : Value → String
  | .text s => Text.quoted s
  | .shown s => s
  | .int n => toString n

def Event.compact (e : Event) : String :=
  e.fields.foldl (fun line f => line ++ " " ++ f.1 ++ "=" ++ f.2.compact)
    (e.level.name ++ " " ++ e.target.path ++ ": " ++ e.message)

def Value.toJson : Value → Json
  | .text s => .str s
  | .shown s => .str s
  | .int n => Json.ofInt n

def Event.toJson (e : Event) : Json :=
  Json.ofMembers (e.fields.map (fun f => (f.1, f.2.toJson)) ++ [
    ("level", .str e.level.name), ("message", .str e.message), ("target", .str e.target.path)])

def Event.line (e : Event) : LogFormat → String
  | .compact => e.compact
  | .json => e.toJson.render

structure Subscriber where
  filter : Filter
  format : LogFormat
  deriving DecidableEq, Repr

def Subscriber.lines (s : Subscriber) (events : List Event) : List String :=
  (events.filter s.filter.admits).map (·.line s.format)

inductive TelemetryError where
  | filter (text : String)
  | install
  deriving DecidableEq, Repr

def TelemetryError.message : TelemetryError → String
  | .filter text => "invalid log filter `" ++ text ++ "`"
  | .install => "could not install the log subscriber"

inductive Telemetry where
  | vacant
  | foreign
  | installed (s : Subscriber)
  deriving DecidableEq, Repr

namespace Telemetry

def ensure (t : Telemetry) (s : Settings) : Except TelemetryError Telemetry :=
  match t with
  | .installed _ => .ok t
  | _ =>
    match Filter.parse s.logFilter with
    | none => .error (.filter s.logFilter)
    | some filter =>
      match t with
      | .foreign => .error .install
      | _ => .ok (.installed { filter, format := s.logFormat })

/-- Makes several attempts, one after the other: what each of them gives, and who writes log lines
afterwards. An attempt that succeeds gives the format that it asked for, whoever it is that writes.
-/
def attempts : Telemetry → List Settings → List (Except TelemetryError LogFormat) × Telemetry
  | t, [] => ([], t)
  | t, s :: rest =>
    match t.ensure s with
    | .ok t =>
      let (results, t) := attempts t rest
      (.ok s.logFormat :: results, t)
    | .error e =>
      let (results, t) := attempts t rest
      (.error e :: results, t)

def lines (t : Telemetry) (events : List Event) : List String :=
  match t with
  | .installed s => s.lines events
  | _ => []

end Telemetry

end LanguageClient.Log
