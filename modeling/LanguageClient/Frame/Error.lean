import LanguageClient.IoError

/-!
# Why no frame could be read or written
-/

namespace LanguageClient

inductive FramingError where
  | io (cause : IoError)
  /-- The stream ended between two frames. -/
  | closed
  | missingContentLength
  /-- A header line is no header, or its length is no number. -/
  | invalidHeader (line : String)
  | frameTooLarge (length limit : Nat)
  deriving DecidableEq, Repr

namespace FramingError

def message : FramingError → String
  | .io cause => "I/O error: " ++ cause.message
  | .closed => "stream closed by peer"
  | .missingContentLength => "missing Content-Length header"
  | .invalidHeader line => "invalid header: " ++ line
  | .frameTooLarge length limit =>
    "frame of " ++ toString length ++ " bytes exceeds the " ++ toString limit ++ " byte limit"

def causes : FramingError → List String
  | .io cause => [cause.message]
  | _ => []

end FramingError

end LanguageClient
