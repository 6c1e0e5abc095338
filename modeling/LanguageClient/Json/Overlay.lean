import LanguageClient.Json.Basic

/-!
# Laying one document over another

Settings come in layers, each of which says something about some settings. Laying a document over
another keeps what only one of them says; where both say something the upper one counts, except that
two records are laid over each other in turn.
-/

namespace LanguageClient.Json

mutual

def overlay : Json → Json → Json
  | .obj upper, .obj lower => .obj (overlayMembers upper lower)
  | .null, _ => .null
  | .bool b, _ => .bool b
  | .num n, _ => .num n
  | .str s, _ => .str s
  | .arr items, _ => .arr items
  | .obj members, _ => .obj members

def overlayMembers : List (String × Json) → List (String × Json) → List (String × Json)
  | [], lower => lower
  | (k, v) :: rest, lower =>
    let v := match lower.lookup k with
      | some old => overlay v old
      | none => v
    overlayMembers rest (insertMember k v lower)

end

end LanguageClient.Json
