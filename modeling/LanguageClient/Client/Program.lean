import LanguageClient.Client.Cycle
import LanguageClient.Log.Telemetry
import LanguageClient.Settings.Load

/-!
# The client as a command-line program

The program loads its settings, checks them, sets up its log, and goes through one activation. A
problem before there is a log is one message on the standard error stream; everything after that is
log lines. The program succeeds if the activation does.
-/

namespace LanguageClient.Client

def programName : String := "fireball-client"

structure Run where
  succeeded : Bool
  lines : List String
  deriving DecidableEq, Repr

def Run.exitCode (r : Run) : Nat := if r.succeeded then 0 else 1

/-- Why the program did not get as far as its log. -/
inductive EarlyFailure where
  | loading (faults : List LoadFault)
  | settings (error : SettingsError)
  | telemetry (error : Log.TelemetryError)
  deriving DecidableEq, Repr

def EarlyFailure.message : EarlyFailure → String
  | .loading faults => "failed to load configuration: " ++ LoadFault.summary faults
  | .settings error => "invalid configuration: " ++ error.message
  | .telemetry error => error.message

def EarlyFailure.run (f : EarlyFailure) : Run :=
  { succeeded := false, lines := (programName ++ ": " ++ f.message).splitOn "\n" }

def prepare (loaded : Except (List LoadFault) Settings) (telemetry : Log.Telemetry) :
    Except EarlyFailure (Settings × Log.Telemetry) :=
  match loaded with
  | .error faults => .error (.loading faults)
  | .ok settings =>
    match settings.validate with
    | .error e => .error (.settings e)
    | .ok _ =>
      match telemetry.ensure settings with
      | .error e => .error (.telemetry e)
      | .ok telemetry => .ok (settings, telemetry)

def run {σ : Type} (shop : Workshop σ) (made : σ) (loaded : Except (List LoadFault) Settings) :
    Run :=
  match prepare loaded .vacant with
  | .error failure => failure.run
  | .ok (settings, telemetry) =>
    let (succeeded, cycle) := activationCycle shop made settings
    { succeeded, lines := telemetry.lines cycle.log }

end LanguageClient.Client
