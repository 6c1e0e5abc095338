import LanguageClient.Server.Process
import LanguageClient.Session.Handshake
import LanguageClient.Transport.Retry

/-!
# What real collaborators are set to

Processes have a grace period, sockets a retry policy, sessions their settings.
-/

namespace LanguageClient

/-- The settings of the collaborators that work on a real machine. -/
structure Collaborators where
  grace : Duration := Process.defaultGrace
  policy : RetryPolicy := {}
  sessions : SessionSettings := {}

def Collaborators.dump (c : Collaborators) : String :=
  Text.recordText "Collaborators" [
    ("supervisor", Text.recordText "SystemSupervisor" [("grace", c.grace.text)]),
    ("connector", Text.recordText "SystemConnector" [("policy", c.policy.dump)]),
    ("sessions", Text.recordText "ProtocolSessions" [("settings", c.sessions.dump)])]

end LanguageClient
