/-!
# Patterns of a shell

A pattern is a text in which some characters have a meaning of their own unless they are quoted: a
star matches anything, a question mark any one character, and brackets one of the characters in
them.
-/

namespace LanguageClient.Machine

structure Glyph where
  char : Char
  quoted : Bool
  deriving DecidableEq, Repr

namespace Pattern

inductive Item where
  | many
  | one
  | char (c : Char)
  | oneOf (inverted : Bool) (ranges : List (Char × Char))
  deriving DecidableEq, Repr

/-- The ranges up to the closing bracket; `first` as long as a closing bracket stands for itself. -/
def ranges : Nat → Bool → List Glyph → Option (List (Char × Char) × List Glyph)
  | 0, _, _ => none
  | _, _, [] => none
  | fuel + 1, first, g :: rest =>
    if g.char = ']' ∧ ¬g.quoted ∧ ¬first then some ([], rest)
    else
      let (high, more) := match rest with
        | dash :: high :: more =>
          if dash.char = '-' ∧ ¬dash.quoted ∧ (high.quoted ∨ high.char ≠ ']') then (high, more)
          else (g, rest)
        | _ => (g, rest)
      (ranges fuel false more).map fun (rs, left) => ((g.char, high.char) :: rs, left)

def bracket (gs : List Glyph) : Option (Item × List Glyph) :=
  let (inverted, gs) := match gs with
    | g :: rest => if g.char = '!' ∧ ¬g.quoted then (true, rest) else (false, gs)
    | [] => (false, gs)
  (ranges (gs.length + 1) true gs).map fun (rs, rest) => (.oneOf inverted rs, rest)

/-- The items of a pattern. An opening bracket without a closing one stands for itself, and so does
what follows a backslash. -/
def items : Nat → List Glyph → List Item
  | 0, _ => []
  | _, [] => []
  | fuel + 1, g :: rest =>
    if g.quoted then .char g.char :: items fuel rest
    else if g.char = '*' then .many :: items fuel rest
    else if g.char = '?' then .one :: items fuel rest
    else if g.char = '[' then
      match bracket rest with
      | some (item, rest) => item :: items fuel rest
      | none => .char '[' :: items fuel rest
    else if g.char = '\\' then
      match rest with
      | e :: rest => .char e.char :: items fuel rest
      | [] => [.char '\\']
    else .char g.char :: items fuel rest

def Item.has (c : Char) : Item → Bool
  | .many | .one => true
  | .char d => c == d
  | .oneOf inverted rs => (rs.any fun (low, high) => low ≤ c && c ≤ high) != inverted

def ends : List Char → List (List Char)
  | [] => [[]]
  | c :: cs => (c :: cs) :: ends cs

def matchesAll : List Item → List Char → Bool
  | [], cs => cs.isEmpty
  | .many :: rest, cs => (ends cs).any (matchesAll rest)
  | item :: rest, cs =>
    match cs with
    | [] => false
    | c :: cs => item.has c && matchesAll rest cs

end Pattern

def fits (pattern : List Glyph) (text : List Char) : Bool :=
  Pattern.matchesAll (Pattern.items (pattern.length + 1) pattern) text

def withoutFront (longest : Bool) (pattern : List Glyph) (text : List Char) : List Char :=
  let lengths := List.range (text.length + 1)
  let lengths := if longest then lengths.reverse else lengths
  match lengths.find? fun n => fits pattern (text.take n) with
  | some n => text.drop n
  | none => text

def withoutEnd (longest : Bool) (pattern : List Glyph) (text : List Char) : List Char :=
  let lengths := List.range (text.length + 1)
  let lengths := if longest then lengths else lengths.reverse
  match lengths.find? fun n => fits pattern (text.drop n) with
  | some n => text.take n
  | none => text

end LanguageClient.Machine
