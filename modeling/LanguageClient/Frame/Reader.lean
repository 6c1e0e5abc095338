import LanguageClient.Frame.Header

/-!
# Taking frames off a stream

A stream, as its reader sees it, is the octets that have arrived and are not consumed, together with
what lies behind them: more may come (`ongoing`), nothing will come (`closed`), or one failure and
then nothing (`failing`).

`receive` takes one frame off the front. While the stream is open and the frame incomplete it
answers `waiting` and consumes nothing; the question is simply asked again when more has arrived,
and it is answered from the start of the frame. That is right because a header line is judged as
soon as it is complete: a bad line is an error however much of the stream is still to come.

A line that is judged bad has been consumed, and so has everything before it; after an error the
next frame is looked for right there.
-/

namespace LanguageClient.Frame

/-- What lies behind the octets that have arrived. -/
inductive Ending where
  | ongoing
  | closed
  /-- The next read fails, and then the stream has ended. -/
  | failing (cause : IoError)
  deriving DecidableEq, Repr

structure Stream where
  bytes : List UInt8
  ending : Ending
  deriving DecidableEq, Repr

inductive Block where
  /-- The block is complete: the length of the payload, and the octets behind the block. -/
  | complete (length : Nat) (rest : List UInt8)
  /-- The block is bad; the octets behind what was consumed. -/
  | bad (error : FramingError) (rest : List UInt8)
  | failed (cause : IoError)
  /-- The block is incomplete and may still be completed. -/
  | waiting
  deriving DecidableEq, Repr

def Block.ofLength (length : Option Nat) (rest : List UInt8) : Block :=
  match blockLength length with
  | .ok n => .complete n rest
  | .error e => .bad e rest

def eofInHeaders : FramingError :=
  .io ⟨.unexpectedEof, some "connection closed while reading headers"⟩

/-- The outcome at the end of a closed stream: `line` holds the unterminated last line, `seen` says
whether any line came before it. -/
def endOfBlock (length : Option Nat) (seen : Bool) (line : List UInt8) : Block :=
  match line with
  | [] => .bad (if seen then eofInHeaders else .closed) []
  | line =>
    match Line.read line with
    | .blank => .ofLength length []
    | .header _ => .bad eofInHeaders []
    | .bad e => .bad e []

/-- Reads a header block. `length` is the last length seen, `seen` says whether a line has been
read, and `line` holds the octets of the line being read, last first. -/
def readBlock (ending : Ending) : Option Nat → Bool → List UInt8 → List UInt8 → Block
  | length, seen, line, [] =>
    match ending with
    | .ongoing => .waiting
    | .failing cause => .failed cause
    | .closed => endOfBlock length seen line.reverse
  | length, seen, line, b :: rest =>
    if b = 0x0A then
      match Line.read (b :: line).reverse with
      | .blank => .ofLength length rest
      | .header none => readBlock ending length true [] rest
      | .header (some n) => readBlock ending (some n) true [] rest
      | .bad e => .bad e rest
    else readBlock ending length seen (b :: line) rest

inductive Received where
  | payload (bytes : List UInt8)
  | failure (error : FramingError)
  | waiting
  deriving DecidableEq, Repr

def eofInPayload : FramingError := .io ⟨.unexpectedEof, some "early eof"⟩

/-- Takes a payload of the given length off a stream whose header block has been consumed; `whole`
is the stream before the block. -/
def receivePayload (whole : Stream) (length : Nat) (rest : List UInt8) : Received × Stream :=
  if length ≤ rest.length then
    (.payload (rest.take length), { whole with bytes := rest.drop length })
  else
    match whole.ending with
    | .ongoing => (.waiting, whole)
    | .closed => (.failure eofInPayload, ⟨[], .closed⟩)
    | .failing cause => (.failure (.io cause), ⟨[], .closed⟩)

def receive (s : Stream) : Received × Stream :=
  match readBlock s.ending none false [] s.bytes with
  | .complete length rest => receivePayload s length rest
  | .bad e rest => (.failure e, { s with bytes := rest })
  | .failed cause => (.failure (.io cause), ⟨[], .closed⟩)
  | .waiting => (.waiting, s)

def receiveTimes : Nat → Stream → List Received
  | 0, _ => []
  | n + 1, s =>
    let (r, s) := receive s
    r :: receiveTimes n s

end LanguageClient.Frame
