import LanguageClient.IoError
import LanguageClient.Server.Exit

/-!
# Why no stream to the server could be had
-/

namespace LanguageClient

inductive ConnectError where
  /-- Every attempt failed in a way that another attempt might have mended. -/
  | retriesExhausted (endpoint : String) (attempts : Nat) (cause : IoError)
  /-- An attempt failed in a way that no other attempt can mend. -/
  | io (endpoint : String) (cause : IoError)
  | resolve (endpoint : String) (cause : IoError)
  | stdioUnavailable
  | serverExited (exit : ProcessExit)
  deriving DecidableEq, Repr

namespace ConnectError

def message : ConnectError → String
  | .retriesExhausted endpoint attempts cause =>
    "could not connect to " ++ endpoint ++ " after " ++ toString attempts ++ " attempts: " ++
      cause.message
  | .io endpoint cause => "failed to connect to " ++ endpoint ++ ": " ++ cause.message
  | .resolve endpoint _ => "failed to resolve " ++ endpoint
  | .stdioUnavailable =>
    "stdio transport requires a spawned process with piped standard streams"
  | .serverExited exit =>
    "language server exited before accepting a connection (" ++ exit.text ++ ")"

def causes : ConnectError → List String
  | .retriesExhausted _ _ cause => [cause.message]
  | .io _ cause => [cause.message]
  | .resolve _ cause => [cause.message]
  | .stdioUnavailable => []
  | .serverExited _ => []

end ConnectError

end LanguageClient
