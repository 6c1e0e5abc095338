import LanguageClient.Frame.Error
import LanguageClient.Rpc.Message
import LanguageClient.Session.State

/-!
# Why a session call failed
-/

namespace LanguageClient

inductive TimedOperation where
  | opening
  | closing
  deriving DecidableEq, Repr

def TimedOperation.name : TimedOperation → String
  | .opening => "initialize"
  | .closing => "shutdown"

inductive SessionError where
  | handshake (detail : String)
  | timeout (operation : TimedOperation) (millis : Nat)
  | transport (cause : FramingError)
  | codec (cause : Rpc.MessageError)
  | serverError (code : Int) (detail : String)
  | notRunning (state : SessionState)
  | closed
  deriving DecidableEq, Repr

namespace SessionError

def message : SessionError → String
  | .handshake detail => "handshake failed: " ++ detail
  | .timeout operation millis =>
    operation.name ++ " timed out after " ++ toString millis ++ "ms"
  | .transport cause => "transport error: " ++ cause.message
  | .codec cause => "JSON codec error: " ++ cause.message
  | .serverError code detail =>
    "server returned error: " ++ detail ++ " (code: " ++ toString code ++ ")"
  | .notRunning state => "session is " ++ state.name ++ ", not running"
  | .closed => "session stream closed"

def causes : SessionError → List String
  | .transport cause => cause.message :: cause.causes
  | .codec cause => [cause.message]
  | _ => []

/-- The error that a failure of the server is reported as. Its further detail is dropped. -/
def ofFailure (f : Rpc.Failure) : SessionError := .serverError f.code f.message

/-- Any error, seen as a failed handshake. -/
def asHandshake : SessionError → SessionError
  | .handshake detail => .handshake detail
  | e => .handshake e.message

end SessionError

end LanguageClient
