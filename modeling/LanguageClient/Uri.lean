import LanguageClient.Text.Utf8

/-!
# URI references

The grammar is that of generic URI references: an optional scheme, an optional authority, a path,
an optional query and an optional fragment, ASCII throughout. A reference is kept as it was written,
without any normalisation; besides its text only its scheme is looked at.

A text outside the grammar is refused with the offset of the octet that cannot stand where it does.
Some rules are worth a note, because they decide which octet that is. A first segment with a colon
in it must be a scheme: if it does not begin with a letter the whole text is refused at its start,
and if other characters than those of a scheme come before the colon, the colon is refused. An
authority with more than one colon outside brackets is refused at the first; with one, the port is
refused at the last octet that is no digit. A bracketed host must be an IPv6 address, and is refused
at its opening bracket.
-/

namespace LanguageClient

/-- Why a text is no URI reference; the offset is counted in octets. -/
inductive UriError where
  | unexpectedCharacter (index : Nat)
  | invalidOctet (index : Nat)
  | invalidIpLiteral (index : Nat)
  deriving DecidableEq, Repr

def UriError.message : UriError → String
  | .unexpectedCharacter index => "unexpected character at index " ++ toString index
  | .invalidOctet index => "invalid percent-encoded octet at index " ++ toString index
  | .invalidIpLiteral index => "invalid IP literal at index " ++ toString index

structure Uri where
  text : String
  scheme : Option String
  deriving DecidableEq, Repr

namespace Uri

/-! ## Character classes -/

def isAlpha (b : UInt8) : Bool := (0x41 ≤ b && b ≤ 0x5A) || (0x61 ≤ b && b ≤ 0x7A)

def isDigit (b : UInt8) : Bool := 0x30 ≤ b && b ≤ 0x39

def isHex (b : UInt8) : Bool := isDigit b || (0x41 ≤ b && b ≤ 0x46) || (0x61 ≤ b && b ≤ 0x66)

/-- Letters, digits and `-._~`. -/
def isUnreserved (b : UInt8) : Bool :=
  isAlpha b || isDigit b || b == 0x2D || b == 0x2E || b == 0x5F || b == 0x7E

/-- The delimiters that may stand inside a component: `!$&'()*+,;=`. -/
def isSubDelim (b : UInt8) : Bool :=
  b == 0x21 || b == 0x24 || (0x26 ≤ b && b ≤ 0x2C) || b == 0x3B || b == 0x3D

def isSchemeOctet (b : UInt8) : Bool :=
  isAlpha b || isDigit b || b == 0x2B || b == 0x2D || b == 0x2E

def isNameOctet (b : UInt8) : Bool := isUnreserved b || isSubDelim b

def isUserOctet (b : UInt8) : Bool := isNameOctet b || b == 0x3A

/-- The octets of a first segment without a colon. -/
def isPlainSegmentOctet (b : UInt8) : Bool := isNameOctet b || b == 0x40

def isPathOctet (b : UInt8) : Bool := isPlainSegmentOctet b || b == 0x3A || b == 0x2F

def isQueryOctet (b : UInt8) : Bool := isPathOctet b || b == 0x3F

/-! ## Reading -/

/-- Where the reader stands: the offset, and the octets from there on. -/
structure Cursor where
  index : Nat
  rest : List UInt8

abbrev Read (α : Type) := Except UriError α

def skip (allowed : UInt8 → Bool) : Nat → List UInt8 → Cursor
  | i, [] => ⟨i, []⟩
  | i, b :: rest => if allowed b then skip allowed (i + 1) rest else ⟨i, b :: rest⟩

def skipEncoded (allowed : UInt8 → Bool) : Nat → List UInt8 → Read Cursor
  | i, [] => .ok ⟨i, []⟩
  | i, b :: rest =>
    if b == 0x25 then
      match rest with
      | hi :: lo :: rest =>
        if isHex hi && isHex lo then skipEncoded allowed (i + 3) rest else .error (.invalidOctet i)
      | _ => .error (.invalidOctet i)
    else if allowed b then skipEncoded allowed (i + 1) rest
    else .ok ⟨i, b :: rest⟩

def marked (mark : UInt8) (c : Cursor) : Read Cursor :=
  match c.rest with
  | b :: rest => if b == mark then skipEncoded isQueryOctet (c.index + 1) rest else .ok c
  | [] => .ok c

def finish (c : Cursor) : Read Unit := do
  let c ← marked 0x3F c
  let c ← marked 0x23 c
  match c.rest with
  | [] => .ok ()
  | _ => .error (.unexpectedCharacter c.index)

def path (c : Cursor) : Read Unit := do finish (← skipEncoded isPathOctet c.index c.rest)

def pathAfterAuthority (c : Cursor) : Read Unit := do
  let after ← skipEncoded isPathOctet c.index c.rest
  match c.rest with
  | b :: _ =>
    if after.index != c.index && b != 0x2F then .error (.unexpectedCharacter c.index)
    else finish after
  | [] => finish after

def relativePath (c : Cursor) : Read Unit := do
  let after ← skipEncoded isPlainSegmentOctet c.index c.rest
  match after.rest with
  | b :: _ => if b == 0x3A then .error (.unexpectedCharacter after.index) else path after
  | [] => path after

def splitAt (mark : UInt8) : List UInt8 → List (List UInt8)
  | [] => [[]]
  | b :: rest =>
    if b == mark then [] :: splitAt mark rest
    else
      match splitAt mark rest with
      | [] => [[b]]
      | piece :: pieces => (b :: piece) :: pieces

/-- A decimal number from 0 to 255 without leading zeros. -/
def isDecimalOctet (piece : List UInt8) : Bool :=
  match piece with
  | [a] => isDigit a
  | [a, b] => isDigit a && isDigit b && a != 0x30
  | [a, b, c] =>
    isDigit a && isDigit b && isDigit c && a != 0x30 &&
      (a.toNat - 48) * 100 + (b.toNat - 48) * 10 + (c.toNat - 48) ≤ 255
  | _ => false

def isIpv4 (bytes : List UInt8) : Bool :=
  let pieces := splitAt 0x2E bytes
  pieces.length == 4 && pieces.all isDecimalOctet

def isGroup (piece : List UInt8) : Bool :=
  1 ≤ piece.length && piece.length ≤ 4 && piece.all isHex

/-- How many sixteen-bit groups pieces stand for, the last of them being allowed to be an IPv4
address; nothing if one is neither. -/
def groupCount (lastMayBeIpv4 : Bool) : List (List UInt8) → Option Nat
  | [] => some 0
  | [piece] =>
    if isGroup piece then some 1
    else if lastMayBeIpv4 && isIpv4 piece then some 2
    else none
  | piece :: pieces =>
    if isGroup piece then (groupCount lastMayBeIpv4 pieces).map (· + 1) else none

def splitAtGap : List UInt8 → Option (List UInt8 × List UInt8)
  | [] => none
  | [_] => none
  | a :: b :: rest =>
    if a == 0x3A && b == 0x3A then some ([], rest)
    else (splitAtGap (b :: rest)).map fun p => (a :: p.1, p.2)

/-- The pieces between single colons; none of nothing. -/
def groupPieces (bytes : List UInt8) : List (List UInt8) :=
  match bytes with
  | [] => []
  | _ => splitAt 0x3A bytes

/-- Eight groups, or fewer with one gap. -/
def isIpv6 (bytes : List UInt8) : Bool :=
  match splitAtGap bytes with
  | none => groupCount true (groupPieces bytes) == some 8
  | some (front, back) =>
    match groupCount false (groupPieces front), groupCount true (groupPieces back) with
    | some m, some n => m + n ≤ 7
    | _, _ => false

def port (c : Cursor) : Cursor :=
  match c.rest with
  | b :: rest => if b == 0x3A then skip isDigit (c.index + 1) rest else c
  | [] => c

def ipLiteral (c : Cursor) : Read Cursor :=
  let inside := (c.rest.drop 1).takeWhile (· != 0x5D)
  match (c.rest.drop 1).dropWhile (· != 0x5D) with
  | [] => .error (.invalidIpLiteral c.index)
  | _ :: rest =>
    if isIpv6 inside then .ok ⟨c.index + inside.length + 2, rest⟩
    else .error (.invalidIpLiteral c.index)

def atBracket (c : Cursor) : Bool := c.rest.head? == some 0x5B

def host (c : Cursor) : Read Cursor :=
  if atBracket c then ipLiteral c else skipEncoded isNameOctet c.index c.rest

/-- Checks a host with an optional port, the whole of an authority without user information. -/
def hostAndPort (start : Cursor) (octets : List UInt8) : Read Unit :=
  let name := octets.takeWhile (· != 0x3A)
  match octets.dropWhile (· != 0x3A) with
  | [] => .ok ()
  | _ :: digits =>
    let colon := start.index + name.length
    if digits.any (· == 0x3A) then .error (.unexpectedCharacter colon)
    else
      match digits.reverse.dropWhile isDigit with
      | [] => .ok ()
      | wrong => .error (.unexpectedCharacter (colon + wrong.length))

def authority (c : Cursor) : Read Unit := do
  let after ← skipEncoded isUserOctet c.index c.rest
  if after.rest.head? == some 0x40 then
    pathAfterAuthority (port (← host ⟨after.index + 1, after.rest.drop 1⟩))
  else if after.index == c.index then
    if atBracket c then pathAfterAuthority (port (← ipLiteral c)) else pathAfterAuthority c
  else
    hostAndPort c (c.rest.take (after.index - c.index))
    pathAfterAuthority after

def atSlashes (bytes : List UInt8) : Bool := bytes.take 2 == [0x2F, 0x2F]

def hierarchy (c : Cursor) (otherwise : Cursor → Read Unit) : Read Unit :=
  if atSlashes c.rest then authority ⟨c.index + 2, c.rest.drop 2⟩ else otherwise c

def check (bytes : List UInt8) : Read (Option Nat) :=
  let after := skip isSchemeOctet 0 bytes
  if after.rest.head? == some 0x3A then
    if bytes.head?.any isAlpha then do
      hierarchy ⟨after.index + 1, after.rest.drop 1⟩ path
      .ok (some after.index)
    else .error (.unexpectedCharacter 0)
  else do
    if after.index == 0 then hierarchy ⟨0, bytes⟩ relativePath else relativePath ⟨0, bytes⟩
    .ok none

def parse (text : String) : Except UriError Uri :=
  match check (Text.Utf8.ofString text) with
  | .error e => .error e
  | .ok n => .ok ⟨text, n.map fun n => String.ofList (text.toList.take n)⟩

end Uri

end LanguageClient
