import LanguageClient.Decimal.Shortest
import LanguageClient.Json.Basic
import LanguageClient.Text.Hex
import LanguageClient.Text.Utf8

/-!
# Compact JSON text

The one text that this library writes for a value: no blanks, members in key order, and in strings
only what must be escaped is escaped. The seven control characters with a short escape use it, the
other control characters are written with four lower-case hexadecimal digits, and everything from
U+0020 on other than the quote and the backslash stands for itself.
-/

namespace LanguageClient.Json

/-- Numbers are positional from `0.00001` up to sixteen digits before the point; exponents carry
their sign. -/
def numberLayout : Decimal.Layout := ⟨-4, 16, true⟩

def escapeChar (c : Char) : List Char :=
  if c = '"' then ['\\', '"']
  else if c = '\\' then ['\\', '\\']
  else if c = '\x08' then ['\\', 'b']
  else if c = '\x0c' then ['\\', 'f']
  else if c = '\n' then ['\\', 'n']
  else if c = '\r' then ['\\', 'r']
  else if c = '\t' then ['\\', 't']
  else if c.toNat < 0x20 then
    ['\\', 'u', '0', '0', Text.Hex.digit (c.toNat / 16), Text.Hex.digit (c.toNat % 16)]
  else [c]

def renderString (s : String) : List Char := '"' :: (s.toList.flatMap escapeChar ++ ['"'])

def renderInt (n : Int) : List Char :=
  if n < 0 then '-' :: Nat.toDigits 10 n.natAbs else Nat.toDigits 10 n.natAbs

/-- A number. A double-precision number that is not finite has no JSON text and is written as
`null`. -/
def renderNumber : Number → List Char
  | .int n => renderInt n
  | .float x => if x.isFinite then numberLayout.write x else ['n', 'u', 'l', 'l']

mutual

def renderChars : Json → List Char
  | .null => ['n', 'u', 'l', 'l']
  | .bool true => ['t', 'r', 'u', 'e']
  | .bool false => ['f', 'a', 'l', 's', 'e']
  | .num n => renderNumber n
  | .str s => renderString s
  | .arr items => '[' :: renderItems items
  | .obj members => '\x7b' :: renderMembers members

def renderItems : List Json → List Char
  | [] => [']']
  | v :: rest => renderChars v ++ renderMoreItems rest

def renderMoreItems : List Json → List Char
  | [] => [']']
  | v :: rest => ',' :: (renderChars v ++ renderMoreItems rest)

def renderMembers : List (String × Json) → List Char
  | [] => ['\x7d']
  | (k, v) :: rest => renderString k ++ ':' :: (renderChars v ++ renderMoreMembers rest)

def renderMoreMembers : List (String × Json) → List Char
  | [] => ['\x7d']
  | (k, v) :: rest =>
    ',' :: (renderString k ++ ':' :: (renderChars v ++ renderMoreMembers rest))

end

def render (v : Json) : String := String.ofList (renderChars v)

def renderBytes (v : Json) : List UInt8 := Text.Utf8.encode (renderChars v)

/-- The compact text of an object whose members are written in the given order, not sorted. This is
how a record prints that has an order of its own. -/
def renderRecord (members : List (String × Json)) : List Char := '\x7b' :: renderMembers members

end LanguageClient.Json
