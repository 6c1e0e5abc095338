/-!
# UTF-8 over lists of octets

The encoder is written by division, the decoder by comparing octets with the ranges of the
standard's table of well-formed sequences. The decoder does not only refuse: it says *where* the
first ill-formed sequence begins and how many octets of it were already fixed when it went wrong,
or that the octets end inside a sequence that could still have been completed. Both texts are shown
to users who look at a stream that is not text.
-/

namespace LanguageClient.Text.Utf8

def encodeChar (c : Char) : List UInt8 :=
  let n := c.toNat
  if n < 0x80 then [UInt8.ofNat n]
  else if n < 0x800 then [UInt8.ofNat (0xC0 + n / 64), UInt8.ofNat (0x80 + n % 64)]
  else if n < 0x10000 then
    [UInt8.ofNat (0xE0 + n / 4096), UInt8.ofNat (0x80 + n / 64 % 64), UInt8.ofNat (0x80 + n % 64)]
  else
    [UInt8.ofNat (0xF0 + n / 262144), UInt8.ofNat (0x80 + n / 4096 % 64),
      UInt8.ofNat (0x80 + n / 64 % 64), UInt8.ofNat (0x80 + n % 64)]

def encode (cs : List Char) : List UInt8 := cs.flatMap encodeChar

def size (cs : List Char) : Nat := (encode cs).length

inductive Fault where
  /-- `length` octets starting at `index` can begin no sequence. -/
  | invalid (length index : Nat)
  /-- The octets end inside the sequence that starts at `index`. -/
  | incomplete (index : Nat)
  deriving DecidableEq, Repr

def Fault.index : Fault → Nat
  | .invalid _ index => index
  | .incomplete index => index

def Fault.message : Fault → String
  | .invalid length index =>
    "invalid utf-8 sequence of " ++ toString length ++ " bytes from index " ++ toString index
  | .incomplete index => "incomplete utf-8 byte sequence from index " ++ toString index

def isTail (b : UInt8) : Bool := 0x80 ≤ b && b ≤ 0xBF

/-- The second octets that may follow the first octet of a three-octet sequence. -/
def isSecondOfThree (a b : UInt8) : Bool :=
  if a == 0xE0 then 0xA0 ≤ b && b ≤ 0xBF
  else if a == 0xED then 0x80 ≤ b && b ≤ 0x9F
  else isTail b

/-- The second octets that may follow the first octet of a four-octet sequence. -/
def isSecondOfFour (a b : UInt8) : Bool :=
  if a == 0xF0 then 0x90 ≤ b && b ≤ 0xBF
  else if a == 0xF4 then 0x80 ≤ b && b ≤ 0x8F
  else isTail b

def charOfTwo (a b : UInt8) : Char := Char.ofNat ((a.toNat - 0xC0) * 64 + (b.toNat - 0x80))

def charOfThree (a b c : UInt8) : Char :=
  Char.ofNat ((a.toNat - 0xE0) * 4096 + (b.toNat - 0x80) * 64 + (c.toNat - 0x80))

def charOfFour (a b c d : UInt8) : Char :=
  Char.ofNat ((a.toNat - 0xF0) * 262144 + (b.toNat - 0x80) * 4096 + (c.toNat - 0x80) * 64 +
    (d.toNat - 0x80))

def consChar (c : Char) : Except Fault (List Char) → Except Fault (List Char)
  | .ok cs => .ok (c :: cs)
  | .error f => .error f

def decodeFrom : Nat → List UInt8 → Except Fault (List Char)
  | _, [] => .ok []
  | i, a :: rest =>
    if a < 0x80 then consChar (Char.ofNat a.toNat) (decodeFrom (i + 1) rest)
    else if 0xC2 ≤ a && a ≤ 0xDF then
      match rest with
      | [] => .error (.incomplete i)
      | b :: rest =>
        if isTail b then consChar (charOfTwo a b) (decodeFrom (i + 2) rest)
        else .error (.invalid 1 i)
    else if 0xE0 ≤ a && a ≤ 0xEF then
      match rest with
      | [] => .error (.incomplete i)
      | b :: rest =>
        if isSecondOfThree a b then
          match rest with
          | [] => .error (.incomplete i)
          | c :: rest =>
            if isTail c then consChar (charOfThree a b c) (decodeFrom (i + 3) rest)
            else .error (.invalid 2 i)
        else .error (.invalid 1 i)
    else if 0xF0 ≤ a && a ≤ 0xF4 then
      match rest with
      | [] => .error (.incomplete i)
      | b :: rest =>
        if isSecondOfFour a b then
          match rest with
          | [] => .error (.incomplete i)
          | c :: rest =>
            if isTail c then
              match rest with
              | [] => .error (.incomplete i)
              | d :: rest =>
                if isTail d then consChar (charOfFour a b c d) (decodeFrom (i + 4) rest)
                else .error (.invalid 3 i)
            else .error (.invalid 2 i)
        else .error (.invalid 1 i)
    else .error (.invalid 1 i)

def decode (bytes : List UInt8) : Except Fault (List Char) := decodeFrom 0 bytes

def decode? (bytes : List UInt8) : Option (List Char) := (decode bytes).toOption

def ofString (s : String) : List UInt8 := encode s.toList

end LanguageClient.Text.Utf8
