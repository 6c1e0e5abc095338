import LanguageClient.Decimal.Binary64

/-!
# JSON values

A number is either a machine integer (signed or unsigned, 64 bits) or a double-precision number,
and the two never coincide: `1` and `1.0` are different values. The members of an object are kept
sorted by key and each key occurs once; `insertMember` is the only way the library adds one, and a
later member replaces an earlier one of the same key.
-/

namespace LanguageClient

inductive Json.Number where
  /-- An integer of the signed or the unsigned 64-bit range. -/
  | int (value : Int)
  | float (value : Decimal.Binary64)
  deriving DecidableEq, Repr

inductive Json where
  | null
  | bool (value : Bool)
  | num (value : Json.Number)
  | str (value : String)
  | arr (items : List Json)
  | obj (members : List (String × Json))
  deriving Repr, BEq, Inhabited

namespace Json

/-- Adds a member to sorted members; an earlier member of the same key is replaced. -/
def insertMember (key : String) (value : Json) : List (String × Json) → List (String × Json)
  | [] => [(key, value)]
  | (k, v) :: rest =>
    if key = k then (key, value) :: rest
    else if key < k then (key, value) :: (k, v) :: rest
    else (k, v) :: insertMember key value rest

/-- The object of the given members, where a later member replaces an earlier one. -/
def ofMembers (members : List (String × Json)) : Json :=
  .obj (members.foldl (fun acc m => insertMember m.1 m.2 acc) [])

def get? (key : String) : Json → Option Json
  | .obj members => members.lookup key
  | _ => none

def ofInt (n : Int) : Json := .num (.int n)

def ofNat (n : Nat) : Json := .num (.int n)

def ofOption {α : Type} (f : α → Json) : Option α → Json
  | none => .null
  | some a => f a

def toInt64? : Json → Option Int
  | .num (.int n) => if n ≤ 9223372036854775807 then some n else none
  | _ => none

def isNull : Json → Bool
  | .null => true
  | _ => false

end Json

end LanguageClient
