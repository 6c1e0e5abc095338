import LanguageClient.Json.Printer
import LanguageClient.Text.Quoted

/-!
# Typed reading of JSON values

A decoder turns a value into a record, a selector or a scalar, or says why it cannot. Records come
in two written forms: an object, in which unknown members are ignored, and an array of the fields
in the order in which the record declares them.

Which of several problems is reported is part of the contract. In an object the members are visited
in key order, so the first ill-typed member in that order wins, and missing fields are noticed only
after all members were read, in declaration order. In an array the fields are visited in
declaration order.
-/

namespace LanguageClient.Json

/-- The kind of a value, with as much of it as a message shows. -/
inductive Found where
  | null
  | bool (value : Bool)
  | int (value : Int)
  | float (value : Decimal.Binary64)
  | str (value : String)
  | sequence
  | map
  deriving DecidableEq, Repr

def found : Json → Found
  | .null => .null
  | .bool b => .bool b
  | .num (.int n) => .int n
  | .num (.float x) => .float x
  | .str s => .str s
  | .arr _ => .sequence
  | .obj _ => .map

def Found.text : Found → String
  | .null => "null"
  | .bool b => "boolean `" ++ toString b ++ "`"
  | .int n => "integer `" ++ toString n ++ "`"
  | .float x => "floating point `" ++ String.ofList (renderNumber (.float x)) ++ "`"
  | .str s => "string " ++ Text.quoted s
  | .sequence => "sequence"
  | .map => "map"

inductive DataError where
  | missingField (name : String)
  | unknownVariant (name : String) (expected : List String)
  | invalidType (found : Found) (expected : String)
  /-- A value has the right type and lies outside its range. -/
  | invalidValue (found : Found) (expected : String)
  | invalidLength (length : Nat) (expected : String)
  | noAlternative (name : String)
  deriving DecidableEq, Repr

def oneOf : List String → String
  | [] => "no variants"
  | [a] => "`" ++ a ++ "`"
  | [a, b] => "`" ++ a ++ "` or `" ++ b ++ "`"
  | names => "one of " ++ ", ".intercalate (names.map fun n => "`" ++ n ++ "`")

def DataError.message : DataError → String
  | .missingField name => "missing field `" ++ name ++ "`"
  | .unknownVariant name expected =>
    "unknown variant `" ++ name ++ "`, expected " ++ oneOf expected
  | .invalidType found expected => "invalid type: " ++ found.text ++ ", expected " ++ expected
  | .invalidValue found expected => "invalid value: " ++ found.text ++ ", expected " ++ expected
  | .invalidLength length expected =>
    "invalid length " ++ toString length ++ ", expected " ++ expected
  | .noAlternative name => "data did not match any variant of untagged enum " ++ name

abbrev Decoded (α : Type) := Except DataError α

def asString : Json → Decoded String
  | .str s => .ok s
  | v => .error (.invalidType v.found "a string")

/-- Decodes an integer between two bounds; `name` is what the range is called. -/
def asIntBetween (low high : Int) (name : String) : Json → Decoded Int
  | .num (.int n) =>
    if low ≤ n && n ≤ high then .ok n else .error (.invalidValue (.int n) name)
  | v => .error (.invalidType v.found name)

def asNatUpTo (high : Nat) (name : String) (v : Json) : Decoded Nat :=
  (asIntBetween 0 high name v).map Int.toNat

def asOption {α : Type} (decode : Json → Decoded α) : Json → Decoded (Option α)
  | .null => .ok none
  | v => (decode v).map some

def asPresent : Json → Option Json
  | .null => none
  | v => some v

def variantNamed {α : Type} (variants : List (String × α)) (name : String) : Decoded α :=
  match variants.lookup name with
  | some a => .ok a
  | none => .error (.unknownVariant name (variants.map (·.1)))

/-- Decodes a selector: its name, or an object with the name as its only key and `null` behind
it. -/
def asVariant {α : Type} (variants : List (String × α)) : Json → Decoded α
  | .str name => variantNamed variants name
  | .obj [(name, content)] => do
    let a ← variantNamed variants name
    match content with
    | .null => .ok a
    | v => .error (.invalidType v.found "unit")
  | .obj _ => .error (.invalidValue .map "map with a single key")
  | v => .error (.invalidType v.found "string or map")

/-- When a field of a record may be left out: never, in the object form only, or in both forms. -/
inductive Presence where
  | required
  | nullable
  | optional
  deriving DecidableEq, Repr

structure Field (β : Type) where
  name : String
  presence : Presence
  store : Json → β → Decoded β

def storeMembers {β : Type} (fields : List (Field β)) : List (String × Json) → β → Decoded β
  | [], record => .ok record
  | (key, v) :: rest, record =>
    match fields.find? (·.name == key) with
    | none => storeMembers fields rest record
    | some field => do storeMembers fields rest (← field.store v record)

/-- The first field, in declaration order, that is needed and not there. -/
def firstMissing {β : Type} (fields : List (Field β)) (members : List (String × Json)) :
    Option String :=
  (fields.find? fun f => f.presence == .required && (members.lookup f.name).isNone).map (·.name)

/-- Visits the items of an array, the fields being given in declaration order. `index` items have
been visited; `short` is the complaint about an array that ends too early. -/
def storeItems {β : Type} (short : String) : Nat → List (Field β) → List Json → β →
    Decoded (List Json × β)
  | _, [], items, record => .ok (items, record)
  | index, field :: fields, [], record =>
    if field.presence = .optional then storeItems short index fields [] record
    else .error (.invalidLength index short)
  | index, field :: fields, v :: items, record => do
    storeItems short (index + 1) fields items (← field.store v record)

/-- Decodes a record from its object or its array form, starting from a record in which every
field has its default. -/
def asRecord {β : Type} (name : String) (fields : List (Field β)) (start : β) :
    Json → Decoded β
  | .obj members => do
    let record ← storeMembers fields members start
    match firstMissing fields members with
    | none => .ok record
    | some field => .error (.missingField field)
  | .arr items => do
    let short := "struct " ++ name ++ " with " ++ toString fields.length ++ " elements"
    let (left, record) ← storeItems short 0 fields items start
    match left with
    | [] => .ok record
    | _ => .error (.invalidLength items.length "fewer elements in array")
  | v => .error (.invalidType v.found ("struct " ++ name))

end LanguageClient.Json
