/-!
# Failures of streams, sockets and processes

An input/output failure has a kind, which the library's decisions look at (may a connect be
retried? is the program missing?), and a text, which people look at. The text is either given with
the failure or is the kind's own description.
-/

namespace LanguageClient

inductive IoKind where
  | notFound
  | permissionDenied
  | connectionRefused
  | connectionReset
  | connectionAborted
  | addrInUse
  | addrNotAvailable
  | networkUnreachable
  | brokenPipe
  | invalidInput
  | invalidData
  | timedOut
  | writeZero
  | unexpectedEof
  | other
  deriving DecidableEq, Repr

def IoKind.description : IoKind → String
  | .notFound => "entity not found"
  | .permissionDenied => "permission denied"
  | .connectionRefused => "connection refused"
  | .connectionReset => "connection reset"
  | .connectionAborted => "connection aborted"
  | .addrInUse => "address in use"
  | .addrNotAvailable => "address not available"
  | .networkUnreachable => "network unreachable"
  | .brokenPipe => "broken pipe"
  | .invalidInput => "invalid input parameter"
  | .invalidData => "invalid data"
  | .timedOut => "timed out"
  | .writeZero => "write zero"
  | .unexpectedEof => "unexpected end of file"
  | .other => "other error"

structure IoError where
  kind : IoKind
  detail : Option String := none
  deriving DecidableEq, Repr

def IoError.message (e : IoError) : String := e.detail.getD e.kind.description

end LanguageClient
