import LanguageClient.Frame.Header

/-!
# Putting frames on a stream

A frame is written in two pieces, header and payload, and then flushed. Each piece is written by as
many single writes as the sink needs to accept it. Nothing is undone when a write fails: what the
sink had accepted by then stays written.
-/

namespace LanguageClient.Frame

/-- What a sink does once it accepts no more. -/
inductive Refusal where
  | fails (cause : IoError)
  | acceptsNothing
  deriving DecidableEq, Repr

structure Sink where
  written : List UInt8 := []
  step : Option Nat := none
  room : Option Nat := none
  refusal : Refusal := .fails ⟨.brokenPipe, none⟩
  closeFailure : Option IoError := none
  closed : Bool := false
  flushes : Nat := 0
  deriving DecidableEq, Repr

def writeZero : IoError := ⟨.writeZero, none⟩

namespace Sink

def accepts (s : Sink) (n : Nat) : Nat :=
  min n (min (s.step.getD n) (s.room.getD n))

def accept (s : Sink) (bytes : List UInt8) : Sink :=
  { s with written := s.written ++ bytes, room := s.room.map (· - bytes.length) }

def writeAllWithin : Nat → Sink → List UInt8 → Except IoError Unit × Sink
  | _, s, [] => (.ok (), s)
  | 0, s, _ :: _ => (.error writeZero, s)
  | fuel + 1, s, bytes =>
    match s.accepts bytes.length with
    | 0 =>
      match s.room, s.refusal with
      | some 0, .fails cause => (.error cause, s)
      | _, _ => (.error writeZero, s)
    | n => writeAllWithin fuel (s.accept (bytes.take n)) (bytes.drop n)

/-- Writes a whole piece. Every single write accepts at least one octet or ends the matter, so one
write an octet is enough. -/
def writeAll (s : Sink) (bytes : List UInt8) : Except IoError Unit × Sink :=
  writeAllWithin (bytes.length + 1) s bytes

def send (s : Sink) (payload : List UInt8) : Except FramingError Unit × Sink :=
  match s.writeAll (header payload.length) with
  | (.error e, s) => (.error (.io e), s)
  | (.ok _, s) =>
    match s.writeAll payload with
    | (.error e, s) => (.error (.io e), s)
    | (.ok _, s) => (.ok (), { s with flushes := s.flushes + 1 })

/-- Closes the sink. Nothing keeps a later write from being accepted. -/
def close (s : Sink) : Except FramingError Unit × Sink :=
  let s := { s with closed := true }
  match s.closeFailure with
  | none => (.ok (), s)
  | some cause => (.error (.io cause), s)

end Sink

end LanguageClient.Frame
