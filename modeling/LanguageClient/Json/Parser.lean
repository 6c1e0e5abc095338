import LanguageClient.Json.Basic
import LanguageClient.Text.Hex
import LanguageClient.Text.Utf8

/-!
# Reading JSON text

The reader works on octets, because a payload need not be text: octets that are not UTF-8 are
refused only inside a string, where they are found when the string ends. It stops at the first
problem and reports what was wrong and at which octet, so that the line and column of the message
can be counted afterwards (`ReadError.message`).

Two kinds of position occur. A problem with an octet that has been *taken* is reported behind it; a
problem with an octet that was only *looked at* is reported as if it had been taken, or at the end
of the text when there was none. `Stop` keeps the number of octets left at that position, which is
all the reader knows without counting what it has passed.

Containers nest at most `maxDepth` deep. The recursion is bounded by an explicit amount of fuel
that `parse` computes from the length of the text: every level of the recursion either takes an
octet or is followed by one that does.
-/

namespace LanguageClient.Json

inductive Fault where
  | eofInList
  | eofInObject
  | eofInString
  | eofInValue
  | expectedColon
  | expectedListEnd
  | expectedObjectEnd
  | expectedIdent
  | expectedValue
  | invalidEscape
  | invalidNumber
  | numberOutOfRange
  | invalidCodePoint
  | controlCharacter
  | keyNotString
  | loneSurrogate
  | endOfHexEscape
  | trailingComma
  | trailingCharacters
  | tooDeep
  deriving DecidableEq, Repr

def Fault.text : Fault → String
  | .eofInList => "EOF while parsing a list"
  | .eofInObject => "EOF while parsing an object"
  | .eofInString => "EOF while parsing a string"
  | .eofInValue => "EOF while parsing a value"
  | .expectedColon => "expected `:`"
  | .expectedListEnd => "expected `,` or `]`"
  | .expectedObjectEnd => "expected `,` or `\x7d`"
  | .expectedIdent => "expected ident"
  | .expectedValue => "expected value"
  | .invalidEscape => "invalid escape"
  | .invalidNumber => "invalid number"
  | .numberOutOfRange => "number out of range"
  | .invalidCodePoint => "invalid unicode code point"
  | .controlCharacter => "control character (\\u0000-\\u001F) found while parsing a string"
  | .keyNotString => "key must be a string"
  | .loneSurrogate => "lone leading surrogate in hex escape"
  | .endOfHexEscape => "unexpected end of hex escape"
  | .trailingComma => "trailing comma"
  | .trailingCharacters => "trailing characters"
  | .tooDeep => "recursion limit exceeded"

/-- Whether more text could have mended the fault. -/
def Fault.isEof : Fault → Bool
  | .eofInList | .eofInObject | .eofInString | .eofInValue => true
  | _ => false

structure Stop where
  fault : Fault
  left : Nat
  deriving DecidableEq, Repr

abbrev Parsed (α : Type) := Except Stop (α × List UInt8)

/-- A problem with what was taken last. -/
def stopBehind {α : Type} (fault : Fault) (rest : List UInt8) : Except Stop α :=
  .error ⟨fault, rest.length⟩

/-- A problem with what stands at the front. -/
def stopAt {α : Type} (fault : Fault) (rest : List UInt8) : Except Stop α :=
  .error ⟨fault, rest.length - 1⟩

def isSpace (b : UInt8) : Bool := b == 0x20 || b == 0x0A || b == 0x0D || b == 0x09

def skipSpace (bytes : List UInt8) : List UInt8 := bytes.dropWhile isSpace

/-- Takes the rest of a word whose first letter has been seen. -/
def literal : List UInt8 → List UInt8 → Except Stop (List UInt8)
  | [], rest => .ok rest
  | _ :: _, [] => stopBehind .eofInValue []
  | e :: es, b :: rest => if b == e then literal es rest else stopBehind .expectedIdent rest

def isDigit (b : UInt8) : Bool := 0x30 ≤ b && b ≤ 0x39

def digitsFrom (acc : Nat) (digits : List UInt8) : Nat :=
  digits.foldl (fun n b => 10 * n + (b.toNat - 48)) acc

/-- A number without fraction and exponent: an integer where it fits a machine word. Zero with a
sign is the negative zero, which no integer is. -/
def integer (negative : Bool) (n : Nat) : Option Number :=
  if negative then
    if n = 0 then some (.float (Decimal.Binary64.zero true))
    else if n ≤ 9223372036854775808 then some (.int (-(n : Int)))
    else (Decimal.Binary64.ofDecimal true n 0).map .float
  else if n ≤ 18446744073709551615 then some (.int n)
  else (Decimal.Binary64.ofDecimal false n 0).map .float

/-- The end of a number: what was computed, unless it is out of range. -/
def finishNumber (n : Option Number) (rest : List UInt8) : Parsed Json :=
  match n with
  | some n => .ok (.num n, rest)
  | none => stopBehind .numberOutOfRange rest

def exponentDigits (negative : Bool) (n : Nat) (places : Nat) (expNegative : Bool)
    (bytes : List UInt8) : Parsed Json :=
  match bytes with
  | [] => stopBehind .eofInValue []
  | b :: rest =>
    if isDigit b then
      let digits := bytes.takeWhile isDigit
      let e : Int := digitsFrom 0 digits
      let e := (if expNegative then -e else e) - places
      finishNumber ((Decimal.Binary64.ofDecimal negative n e).map .float)
        (bytes.dropWhile isDigit)
    else stopBehind .invalidNumber rest

/-- Reads an exponent, if there is one, behind digits worth `n` of which `places` stand behind the
point. -/
def exponent (negative : Bool) (n : Nat) (places : Nat) (plain : Option Number)
    (bytes : List UInt8) : Parsed Json :=
  match bytes with
  | [] => finishNumber plain []
  | b :: rest =>
    if b == 0x65 || b == 0x45 then
      match rest with
      | [] => stopBehind .eofInValue []
      | s :: rest' =>
        if s == 0x2B then exponentDigits negative n places false rest'
        else if s == 0x2D then exponentDigits negative n places true rest'
        else exponentDigits negative n places false rest
    else finishNumber plain bytes

def fraction (negative : Bool) (n : Nat) (bytes : List UInt8) : Parsed Json :=
  match bytes with
  | [] => finishNumber (integer negative n) []
  | b :: rest =>
    if b == 0x2E then
      let digits := rest.takeWhile isDigit
      match digits with
      | [] =>
        match rest with
        | [] => stopAt .eofInValue []
        | _ => stopAt .invalidNumber rest
      | _ =>
        let m := digitsFrom n digits
        exponent negative m digits.length
          ((Decimal.Binary64.ofDecimal negative m (-(digits.length : Int))).map .float)
          (rest.dropWhile isDigit)
    else exponent negative n 0 (integer negative n) bytes

def number (negative : Bool) (bytes : List UInt8) : Parsed Json :=
  match bytes with
  | [] => stopBehind .eofInValue []
  | b :: rest =>
    if b == 0x30 then
      match rest with
      | [] => fraction negative 0 []
      | d :: _ => if isDigit d then stopAt .invalidNumber rest else fraction negative 0 rest
    else if isDigit b then
      fraction negative (digitsFrom 0 (bytes.takeWhile isDigit)) (bytes.dropWhile isDigit)
    else stopBehind .invalidNumber rest

def shortEscape (b : UInt8) : Option UInt8 :=
  if b == 0x22 then some 0x22
  else if b == 0x5C then some 0x5C
  else if b == 0x2F then some 0x2F
  else if b == 0x62 then some 0x08
  else if b == 0x66 then some 0x0C
  else if b == 0x6E then some 0x0A
  else if b == 0x72 then some 0x0D
  else if b == 0x74 then some 0x09
  else none

def hexValue (b : UInt8) : Option Nat := Text.Hex.valueOfCode b.toNat

def hexValue4 (a b c d : UInt8) : Option Nat :=
  match hexValue a, hexValue b, hexValue c, hexValue d with
  | some a, some b, some c, some d => some (((a * 16 + b) * 16 + c) * 16 + d)
  | _, _, _, _ => none

/-- Puts the octets of a character, last first, in front of those collected. -/
def pushChar (n : Nat) (acc : List UInt8) : List UInt8 :=
  (Text.Utf8.encodeChar (Char.ofNat n)).reverse ++ acc

/-- Reads the octets of a string up to and including its closing quote. The first argument holds
the octets collected so far, last first. -/
def stringOctets : List UInt8 → List UInt8 → Parsed (List UInt8)
  | _, [] => stopBehind .eofInString []
  | acc, b :: rest =>
    if b == 0x22 then .ok (acc.reverse, rest)
    else if b == 0x5C then
      match rest with
      | [] => stopBehind .eofInString []
      | e :: rest =>
        if e == 0x75 then
          match rest with
          | h1 :: h2 :: h3 :: h4 :: rest =>
            match hexValue4 h1 h2 h3 h4 with
            | none => stopBehind .invalidEscape rest
            | some n =>
              if 0xDC00 ≤ n && n ≤ 0xDFFF then stopBehind .loneSurrogate rest
              else if n < 0xD800 || 0xDBFF < n then stringOctets (pushChar n acc) rest
              else
                match rest with
                | [] => stopBehind .eofInString []
                | s :: rest =>
                  if s == 0x5C then
                    match rest with
                    | [] => stopBehind .eofInString []
                    | u :: rest =>
                      if u == 0x75 then
                        match rest with
                        | l1 :: l2 :: l3 :: l4 :: rest =>
                          match hexValue4 l1 l2 l3 l4 with
                          | none => stopBehind .invalidEscape rest
                          | some m =>
                            if m < 0xDC00 || 0xDFFF < m then stopBehind .loneSurrogate rest
                            else
                              stringOctets
                                (pushChar ((n - 0xD800) * 1024 + (m - 0xDC00) + 0x10000) acc) rest
                        | _ => stopBehind .eofInString []
                      else stopBehind .endOfHexEscape rest
                  else stopBehind .endOfHexEscape rest
          | _ => stopBehind .eofInString []
        else
          match shortEscape e with
          | some c => stringOctets (c :: acc) rest
          | none => stopBehind .invalidEscape rest
    else if b < 0x20 then stopBehind .controlCharacter rest
    else stringOctets (b :: acc) rest

/-- Reads a string whose opening quote has been taken. If what it says is no text, then the position
is counted back from the closing quote by the octets that are left from the ill-formed sequence on.
-/
def string (bytes : List UInt8) : Parsed String :=
  match stringOctets [] bytes with
  | .error e => .error e
  | .ok (octets, rest) =>
    match Text.Utf8.decode octets with
    | .ok cs => .ok (String.ofList cs, rest)
    | .error fault => .error ⟨.invalidCodePoint, rest.length + (octets.length - fault.index)⟩

def word (v : Json) (letters bytes : List UInt8) : Parsed Json :=
  match literal letters bytes with
  | .ok rest => .ok (v, rest)
  | .error e => .error e

mutual

def value : Nat → Nat → List UInt8 → Parsed Json
  | 0, _, bytes => stopAt .eofInValue bytes
  | fuel + 1, depth, bytes =>
    match skipSpace bytes with
    | [] => stopAt .eofInValue []
    | b :: rest =>
      if b == 0x6E then word .null [0x75, 0x6C, 0x6C] rest
      else if b == 0x74 then word (.bool true) [0x72, 0x75, 0x65] rest
      else if b == 0x66 then word (.bool false) [0x61, 0x6C, 0x73, 0x65] rest
      else if b == 0x2D then number true rest
      else if isDigit b then number false (b :: rest)
      else if b == 0x22 then
        match string rest with
        | .ok (s, rest) => .ok (.str s, rest)
        | .error e => .error e
      else if b == 0x5B then
        match depth with
        | 0 => stopAt .tooDeep (b :: rest)
        | depth + 1 => items fuel depth true [] rest
      else if b == 0x7B then
        match depth with
        | 0 => stopAt .tooDeep (b :: rest)
        | depth + 1 => members fuel depth true [] rest
      else stopAt .expectedValue (b :: rest)

/-- Reads items up to and including the closing bracket. `first` says that none has been read; the
items read so far are given last first. -/
def items : Nat → Nat → Bool → List Json → List UInt8 → Parsed Json
  | 0, _, _, _, bytes => stopAt .eofInList bytes
  | fuel + 1, depth, first, acc, bytes =>
    match skipSpace bytes with
    | [] => stopAt .eofInList []
    | b :: rest =>
      if b == 0x5D then .ok (.arr acc.reverse, rest)
      else if first then
        match value fuel depth (b :: rest) with
        | .ok (v, rest) => items fuel depth false (v :: acc) rest
        | .error e => .error e
      else if b == 0x2C then
        match skipSpace rest with
        | [] => stopAt .eofInValue []
        | c :: rest =>
          if c == 0x5D then stopAt .trailingComma (c :: rest)
          else
            match value fuel depth (c :: rest) with
            | .ok (v, rest) => items fuel depth false (v :: acc) rest
            | .error e => .error e
      else stopAt .expectedListEnd (b :: rest)

def members : Nat → Nat → Bool → List (String × Json) → List UInt8 → Parsed Json
  | 0, _, _, _, bytes => stopAt .eofInObject bytes
  | fuel + 1, depth, first, acc, bytes =>
    match skipSpace bytes with
    | [] => stopAt .eofInObject []
    | b :: rest =>
      if b == 0x7D then .ok (.obj acc, rest)
      else if first then member fuel depth acc (b :: rest)
      else if b == 0x2C then
        match skipSpace rest with
        | [] => stopAt .eofInValue []
        | c :: rest =>
          if c == 0x7D then stopAt .trailingComma (c :: rest)
          else member fuel depth acc (c :: rest)
      else stopAt .expectedObjectEnd (b :: rest)

def member : Nat → Nat → List (String × Json) → List UInt8 → Parsed Json
  | 0, _, _, bytes => stopAt .eofInObject bytes
  | fuel + 1, depth, acc, bytes =>
    match bytes with
    | [] => stopAt .eofInValue []
    | b :: rest =>
      if b == 0x22 then
        match string rest with
        | .error e => .error e
        | .ok (key, rest) =>
          match skipSpace rest with
          | [] => stopAt .eofInObject []
          | c :: rest =>
            if c == 0x3A then
              match value fuel depth rest with
              | .ok (v, rest) => members fuel depth false (insertMember key v acc) rest
              | .error e => .error e
            else stopAt .expectedColon (c :: rest)
      else stopAt .keyNotString (b :: rest)

end

def maxDepth : Nat := 127

def fuelFor (length : Nat) : Nat := 4 * length + 4

structure ReadError where
  fault : Fault
  line : Nat
  column : Nat
  deriving DecidableEq, Repr

def ReadError.message (e : ReadError) : String :=
  e.fault.text ++ " at line " ++ toString e.line ++ " column " ++ toString e.column

def ReadError.at (text : List UInt8) (stop : Stop) : ReadError :=
  let before := text.take (text.length - stop.left)
  { fault := stop.fault
    line := 1 + before.count 0x0A
    column := (before.reverse.takeWhile (· != 0x0A)).length }

def parse (text : List UInt8) : Except ReadError Json :=
  match value (fuelFor text.length) maxDepth text with
  | .error stop => .error (ReadError.at text stop)
  | .ok (v, rest) =>
    match skipSpace rest with
    | [] => .ok v
    | b :: rest => .error (ReadError.at text ⟨.trailingCharacters, (b :: rest).length - 1⟩)

end LanguageClient.Json
