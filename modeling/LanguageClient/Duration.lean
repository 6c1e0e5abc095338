import LanguageClient.Text.Numeral

/-!
# Lengths of time

A duration is a whole number of nanoseconds, at most `2 ^ 64` seconds less one nanosecond; it
carries the proof that it is not longer than that. Scaling a duration saturates at that largest
value; adding up durations past it is an error of the caller and is reported as such (`sum?` answers
nothing).
-/

namespace LanguageClient

/-- The nanoseconds of the longest duration: `2 ^ 64 - 1` seconds and `999999999` nanoseconds. -/
def Duration.maxNanos : Nat := 18446744073709551615999999999

structure Duration where
  nanos : Nat
  isLe : nanos ≤ Duration.maxNanos
  deriving DecidableEq, Repr

namespace Duration

def nanosPerSec : Nat := 1000000000

/-- A number of nanoseconds, at most the longest duration. -/
def ofNanos (n : Nat) : Duration := ⟨min n maxNanos, Nat.min_le_right ..⟩

def max : Duration := ⟨maxNanos, Nat.le_refl _⟩

def zero : Duration := ⟨0, Nat.zero_le _⟩

def ofMillis (n : Nat) : Duration := ofNanos (n * 1000000)

def ofParts (secs nanos : Nat) : Duration := ofNanos (secs * nanosPerSec + nanos)

def secs (d : Duration) : Nat := d.nanos / nanosPerSec

def subsecNanos (d : Duration) : Nat := d.nanos % nanosPerSec

def millis (d : Duration) : Nat := d.nanos / 1000000

def scale (d : Duration) (times : UInt32) : Duration := ofNanos (d.nanos * times.toNat)

def shorter (a b : Duration) : Duration := if a.nanos ≤ b.nanos then a else b

def add? (a b : Duration) : Option Duration :=
  if h : a.nanos + b.nanos ≤ maxNanos then some ⟨a.nanos + b.nanos, h⟩ else none

def sum? (ds : List Duration) : Option Duration :=
  ds.foldl (fun acc d => acc.bind (·.add? d)) (some zero)

/-- A fraction of a power of ten, without zeros at its end, behind a point; nothing for zero. -/
def fractionText (value places : Nat) : List Char :=
  let digits := Text.numeral value
  let padded := List.replicate (places - digits.length) '0' ++ digits
  match (padded.reverse.dropWhile (· == '0')).reverse with
  | [] => []
  | ds => '.' :: ds

/-- A duration in the largest unit of which it has at least one, with a decimal fraction. -/
def text (d : Duration) : String :=
  let n := d.nanos
  let inUnit (unit places : Nat) (name : List Char) : String :=
    String.ofList (Text.numeral (n / unit) ++ fractionText (n % unit) places ++ name)
  if nanosPerSec ≤ n then inUnit nanosPerSec 9 ['s']
  else if 1000000 ≤ n then inUnit 1000000 6 ['m', 's']
  else if 1000 ≤ n then inUnit 1000 3 ['µ', 's']
  else inUnit 1 0 ['n', 's']

end Duration

end LanguageClient
