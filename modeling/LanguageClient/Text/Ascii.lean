/-!
# Comparison up to ASCII case

Header names, URI schemes, selector names and environment keys are compared without regard to the
case of the 26 ASCII letters; every other character must agree exactly.
-/

namespace LanguageClient.Text

/-- The lower-case form of an ASCII capital; any other character is its own form. -/
def lowerChar (c : Char) : Char :=
  if 'A' ≤ c && c ≤ 'Z' then Char.ofNat (c.toNat + 32) else c

def lower (cs : List Char) : List Char := cs.map lowerChar

def sameIgnoringCase (a b : List Char) : Bool := lower a == lower b

def lowered (s : String) : String := String.ofList (lower s.toList)

def eqIgnoringCase (a b : String) : Bool := sameIgnoringCase a.toList b.toList

end LanguageClient.Text
