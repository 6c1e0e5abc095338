import LanguageClient.Json.Basic

/-!
# Looking at members

Ways to take a member out of a record by its name and by the form it should have. A member that is
missing, null or of another form counts as absent.
-/

namespace LanguageClient.Json

def member? (v : Json) (name : String) : Option Json :=
  match v.get? name with
  | some .null => none
  | other => other

def nat? : Json → Option Nat
  | .num (.int n) => if 0 ≤ n then some n.toNat else none
  | _ => none

def str? : Json → Option String
  | .str s => some s
  | _ => none

def strMember? (v : Json) (name : String) : Option String := (v.member? name).bind str?

def strMember (v : Json) (name : String) : String := (v.strMember? name).getD ""

def natMember? (v : Json) (name : String) : Option Nat := (v.member? name).bind nat?

def intMember? (v : Json) (name : String) : Option Int :=
  match v.member? name with
  | some (.num (.int n)) => some n
  | _ => none

def boolMember (v : Json) (name : String) : Bool :=
  match v.member? name with
  | some (.bool b) => b
  | _ => false

def listMember (v : Json) (name : String) : List Json :=
  match v.member? name with
  | some (.arr xs) => xs
  | _ => []

def strsMember (v : Json) (name : String) : List String := (v.listMember name).filterMap str?

def entries : Json → List (String × Json)
  | .obj ms => ms
  | _ => []

def textsMember (v : Json) (name : String) : List (String × String) :=
  ((v.member? name).getD .null).entries.filterMap fun m => (str? m.2).map fun s => (m.1, s)

end LanguageClient.Json
