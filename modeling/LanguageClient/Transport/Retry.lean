import LanguageClient.Duration
import LanguageClient.IoError
import LanguageClient.Text.Structured

/-!
# How often and how patiently a connect is retried

The delay after a failed attempt doubles from attempt to attempt up to a cap. The doubling is done
with a 32-bit factor that stays at its largest value once it has run out of bits, and multiplying a
duration saturates, so no attempt number overflows anything.
-/

namespace LanguageClient

structure RetryPolicy where
  maxAttempts : Nat := 20
  initialBackoff : Duration := Duration.ofMillis 50
  maxBackoff : Duration := Duration.ofMillis 500
  connectTimeout : Duration := Duration.ofMillis 2000
  deriving DecidableEq, Repr

namespace RetryPolicy

def noRetry : RetryPolicy := { maxAttempts := 1 }

/-- The factor of the delay after an attempt, counted from one: a single bit, moved up by one place
for each attempt before, while it fits in 32 bits, and the largest word from then on. -/
def factor (attempt : Nat) : UInt32 :=
  if attempt - 1 < 32 then 1 <<< UInt32.ofNat (attempt - 1) else 4294967295

def backoff (p : RetryPolicy) (attempt : Nat) : Duration :=
  (p.initialBackoff.scale (factor attempt)).shorter p.maxBackoff

/-- The delays of a run that exhausts all attempts: one after each attempt but the last. -/
def delays (p : RetryPolicy) : List Duration :=
  (List.range (p.maxAttempts - 1)).map fun i => p.backoff (i + 1)

/-- The sum of all delays of a run that exhausts all attempts; nothing if that is too long for a
duration. -/
def totalBackoff (p : RetryPolicy) : Option Duration := Duration.sum? p.delays

def dump (p : RetryPolicy) : String :=
  Text.recordText "RetryPolicy" [
    ("max_attempts", toString p.maxAttempts),
    ("initial_backoff", p.initialBackoff.text),
    ("max_backoff", p.maxBackoff.text),
    ("connect_timeout", p.connectTimeout.text)]

end RetryPolicy

/-- Whether a failed connect suggests that the server is simply not there yet. -/
def IoKind.isRetryable : IoKind → Bool
  | .connectionRefused | .notFound | .addrNotAvailable | .connectionReset | .timedOut => true
  | _ => false

end LanguageClient
