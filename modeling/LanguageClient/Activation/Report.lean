import LanguageClient.Server.Exit
import LanguageClient.Session.Error

/-!
# What a deactivation did
-/

namespace LanguageClient

structure DeactivationReport where
  sessionStopped : Bool := false
  sessionError : Option SessionError := none
  /-- What came of ending the server, if the client had launched one. -/
  termination : Option Termination := none
  deriving DecidableEq, Repr

namespace DeactivationReport

def idle : DeactivationReport := {}

/-- Whether there seems to have been nothing to do. -/
def wasIdle (r : DeactivationReport) : Bool := !r.sessionStopped && r.termination.isNone

def isClean (r : DeactivationReport) : Bool :=
  r.sessionError.isNone && r.termination.all Termination.isTerminated

def text (r : DeactivationReport) : String :=
  if r.wasIdle then "nothing to deactivate"
  else
    let session := match r.sessionError with
      | none => "session stopped"
      | some e => "session stopped (" ++ e.message ++ ")"
    match r.termination with
    | some outcome => session ++ ", server " ++ outcome.text
    | none => session ++ ", no owned server"

end DeactivationReport

end LanguageClient
