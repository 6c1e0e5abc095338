import LanguageClient.Server.Error
import LanguageClient.Session.Error
import LanguageClient.Settings.Basic
import LanguageClient.Transport.Error

/-!
# Why an activation was given up

Failures of the three collaborators are passed on as they are; only broken settings are introduced
by words of their own.
-/

namespace LanguageClient

inductive ActivationError where
  | settings (cause : SettingsError)
  | launch (cause : LaunchError)
  | connect (cause : ConnectError)
  | session (cause : SessionError)
  | alreadyActive
  /-- Something listens already where the server would. -/
  | portInUse (endpoint : String)
  deriving DecidableEq, Repr

namespace ActivationError

def message : ActivationError → String
  | .settings cause => "invalid configuration: " ++ cause.message
  | .launch cause => cause.message
  | .connect cause => cause.message
  | .session cause => cause.message
  | .alreadyActive => "language client is already active"
  | .portInUse endpoint =>
    endpoint ++ " is already in use; stop the other server or switch to attached mode"

def causes : ActivationError → List String
  | .settings cause => [cause.message]
  | .launch cause => cause.causes
  | .connect cause => cause.causes
  | .session cause => cause.causes
  | .alreadyActive => []
  | .portInUse _ => []

end ActivationError

end LanguageClient
