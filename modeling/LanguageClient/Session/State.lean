/-!
# The stages of a session
-/

namespace LanguageClient

inductive SessionState where
  /-- Not begun, or over. -/
  | stopped
  | starting
  | running
  /-- Traffic is refused, and the session is being wound up. -/
  | stopping
  deriving DecidableEq, Repr

instance : Inhabited SessionState := ⟨.stopped⟩

namespace SessionState

def name : SessionState → String
  | .stopped => "stopped"
  | .starting => "starting"
  | .running => "running"
  | .stopping => "stopping"

def names : List (String × SessionState) :=
  [("stopped", .stopped), ("starting", .starting), ("running", .running), ("stopping", .stopping)]

def isRunning : SessionState → Bool
  | .running => true
  | _ => false

def label : SessionState → String
  | .stopped => "Stopped"
  | .starting => "Starting"
  | .running => "Running"
  | .stopping => "Stopping"

end SessionState

end LanguageClient
