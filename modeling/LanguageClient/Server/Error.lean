import LanguageClient.IoError

/-!
# Why a server could not be launched
-/

namespace LanguageClient

inductive LaunchError where
  | binaryNotFound (program : String) (cause : IoError)
  /-- The executable exists and could not be started. -/
  | spawnFailed (detail : String) (cause : IoError)
  | emptyCommand
  deriving DecidableEq, Repr

namespace LaunchError

def message : LaunchError → String
  | .binaryNotFound program _ => "language server binary not found: " ++ program
  | .spawnFailed detail _ => "failed to spawn language server process: " ++ detail
  | .emptyCommand => "server command line is empty"

def causes : LaunchError → List String
  | .binaryNotFound _ cause => [cause.message]
  | .spawnFailed _ cause => [cause.message]
  | .emptyCommand => []

def ofIo (program : String) (cause : IoError) : LaunchError :=
  if cause.kind = .notFound then .binaryNotFound program cause
  else .spawnFailed ("failed to start " ++ program) cause

end LaunchError

end LanguageClient
