import LanguageClient.Frame.Error
import LanguageClient.Text.Ascii
import LanguageClient.Text.Blank
import LanguageClient.Text.Numeral
import LanguageClient.Text.Utf8

/-!
# Frames and their header lines

A frame is a block of header lines, a blank line and a payload. The writer always produces the same
block: one line that names the payload's length. The reader accepts any block whose lines hold a
colon, and looks only at the length.
-/

namespace LanguageClient.Frame

def lengthName : List Char := "Content-Length".toList

def maxPayload : Nat := 67108864

def headerText (length : Nat) : List Char :=
  lengthName ++ [':', ' '] ++ Text.numeral length ++ ['\r', '\n', '\r', '\n']

def header (length : Nat) : List UInt8 := Text.Utf8.encode (headerText length)

def encode (payload : List UInt8) : List UInt8 := header payload.length ++ payload

/-- What a header line says about the length, the line being given without the blanks around it:
nothing, if it is some other header. -/
def lineLength (line : List Char) : Except FramingError (Option Nat) :=
  match line.dropWhile (· != ':') with
  | [] => .error (.invalidHeader (String.ofList line))
  | _ :: value =>
    if Text.sameIgnoringCase (Text.trim (line.takeWhile (· != ':'))) lengthName then
      match Text.readNumeral Text.maxWord64 (Text.trim value) with
      | some n => .ok (some n)
      | none => .error (.invalidHeader (String.ofList line))
    else .ok none

inductive Line where
  | blank
  | header (length : Option Nat)
  | bad (error : FramingError)
  deriving DecidableEq, Repr

def Line.read (octets : List UInt8) : Line :=
  match Text.Utf8.decode octets with
  | .error fault => .bad (.io ⟨.invalidData, some fault.message⟩)
  | .ok cs =>
    match Text.trim cs with
    | [] => .blank
    | line =>
      match lineLength line with
      | .ok length => .header length
      | .error e => .bad e

/-- The end of a header block: the length of the payload that follows. -/
def blockLength : Option Nat → Except FramingError Nat
  | none => .error .missingContentLength
  | some n => if maxPayload < n then .error (.frameTooLarge n maxPayload) else .ok n

end LanguageClient.Frame
