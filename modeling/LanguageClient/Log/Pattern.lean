import LanguageClient.Text.Alphanumeric
import LanguageClient.Text.Ascii
import LanguageClient.Text.Blank
import LanguageClient.Text.Hex

/-!
# Values that a field must have

A log filter can ask for a field with a certain value. The value is a truth value, a number or a
regular expression. Events of this library are never asked for values, so no expression is ever
matched, but a filter with one that is none is refused. This module says which texts are regular
expressions.

A closing brace, a comma and an equals sign end the value where it stands, so they cannot occur in
it. Hence there are no counted repetitions, and neither escapes nor names in braces.

Expressions are about characters unless a flag says that they are about octets. About characters
little is known: neither which are digits, blanks or word characters, nor which differ in case only.
An expression about octets must not match a part of a character beyond ASCII.
-/

namespace LanguageClient.Log.Pattern

/-! ## Numbers -/

def withoutSign : List Char → List Char
  | '+' :: rest => rest
  | '-' :: rest => rest
  | cs => cs

def isExponent : List Char → Bool
  | [] => true
  | mark :: rest =>
    let digits := withoutSign rest
    (mark = 'e' || mark = 'E') && !digits.isEmpty && digits.all Char.isDigit

/-- Whether a text is a number, with a sign, a fraction and an exponent or without, or the name of
something beyond numbers. -/
def isNumber (cs : List Char) : Bool :=
  let cs := withoutSign cs
  let named := ["inf", "infinity", "nan"].any fun name => Text.sameIgnoringCase name.toList cs
  let (whole, rest) := cs.span Char.isDigit
  let (fraction, rest) := match rest with
    | '.' :: rest => rest.span Char.isDigit
    | rest => ([], rest)
  named || (!(whole ++ fraction).isEmpty && isExponent rest)

/-! ## Escapes -/

inductive Escape where
  /-- A single character; `octet` if it was given by two hexadecimal digits. -/
  | character (octet : Bool) (c : Char)
  /-- The digits, the blanks or the word characters, or all others. -/
  | shorthand (negated : Bool)
  | category
  | edge
  | wordEdge
  deriving DecidableEq, Repr

/-- The character with a number given by the hexadecimal digits at the front of a text, and the
rest. -/
def takeCode (count : Nat) (cs : List Char) : Option (Escape × List Char) :=
  if cs.length < count then none
  else
    (Text.Hex.number (cs.take count)).bind fun n =>
      if n < 0xD800 ∨ (0xDFFF < n ∧ n < 0x110000) then
        some (.character (count = 2) (Char.ofNat n), cs.drop count)
      else none

def lettered : List (Char × Char) :=
  [('a', '\x07'), ('f', '\x0c'), ('t', '\t'), ('n', '\n'), ('r', '\r'), ('v', '\x0b')]

def categories : List Char := ['c', 'l', 'm', 'n', 'p', 's', 'z']

/-- Reads an escape after its backslash. An ASCII character that is neither a letter nor a digit nor
an angle stands for itself. -/
def takeEscape : List Char → Option (Escape × List Char)
  | [] => none
  | c :: rest =>
    if c = 'x' then takeCode 2 rest
    else if c = 'u' then takeCode 4 rest
    else if c = 'U' then takeCode 8 rest
    else if c = 'p' || c = 'P' then
      match rest with
      | name :: rest =>
        if categories.contains (Text.lowerChar name) then some (.category, rest) else none
      | [] => none
    else if ['d', 's', 'w'].contains c then some (.shorthand false, rest)
    else if ['D', 'S', 'W'].contains c then some (.shorthand true, rest)
    else if c = 'A' || c = 'z' then some (.edge, rest)
    else if ['b', 'B', '<', '>'].contains c then
      if rest.head? = some '\x7b' then none else some (.wordEdge, rest)
    else
      match lettered.lookup c with
      | some plain => some (.character false plain, rest)
      | none =>
        if c.toNat < 0x80 && !c.isAlphanum then some (.character false c, rest) else none

/-! ## Flags -/

structure Mode where
  verbose : Bool := false
  octets : Bool := false
  caseless : Bool := false
  deriving DecidableEq, Repr

def flagLetters : List Char := ['i', 'm', 's', 'U', 'u', 'R', 'x']

def Mode.set (m : Mode) (flag : Char) (on : Bool) : Mode :=
  if flag = 'x' then { m with verbose := on }
  else if flag = 'u' then { m with octets := !on }
  else if flag = 'i' then { m with caseless := on }
  else m

/-- Whether a character can stand outside a class. -/
def Mode.hasCharacter (m : Mode) (octet : Bool) (c : Char) : Bool :=
  if m.octets then !octet || c.toNat < 0x80 else !m.caseless

/-- Reads flags up to a colon or a closing parenthesis: the mode, whether a group follows, and the
rest. No flag may occur twice, only one minus may occur, and a flag must follow it. -/
def takeFlags : Mode → List Char → Bool → Bool → List Char → Option (Mode × Bool × List Char)
  | _, _, _, _, [] => none
  | m, seen, negated, dangling, c :: rest =>
    if c = ':' || c = ')' then
      if dangling || (c = ')' && seen.isEmpty) then none else some (m, c = ':', rest)
    else if c = '-' then if negated then none else takeFlags m seen true true rest
    else if flagLetters.contains c && !seen.contains c then
      takeFlags (m.set c (!negated)) (c :: seen) negated false rest
    else none

def startsName (c : Char) : Bool := c = '_' || (Text.isAlphanumeric c && !c.isDigit)

def isNameChar (c : Char) : Bool :=
  Text.isAlphanumeric c || c = '_' || c = '.' || c = '[' || c = ']'

def takeName (cs : List Char) : Option (List Char × List Char) :=
  match cs.span (· != '>') with
  | (c :: name, _ :: rest) =>
    if startsName c && name.all isNameChar then some (c :: name, rest) else none
  | _ => none

/-! ## Classes -/

def namedClasses : List String := [
  "alnum", "alpha", "ascii", "blank", "cntrl", "digit", "graph", "lower", "print", "punct", "space",
  "upper", "word", "xdigit"]

def skip (m : Mode) : Nat → List Char → List Char
  | 0, cs => cs
  | _, [] => []
  | fuel + 1, c :: rest =>
    if m.verbose && Text.isBlank c then skip m fuel rest
    else if m.verbose && c = '#' then skip m fuel (rest.dropWhile (· != '\n'))
    else c :: rest

/-- A class by name, after its opening bracket: whether it is negated, and the rest. -/
def takeNamedClass : List Char → Option (Bool × List Char)
  | ':' :: rest =>
    let negated := rest.head? = some '^'
    match (if negated then rest.tail else rest).span (· != ':') with
    | (name, ':' :: ']' :: rest) =>
      if namedClasses.contains (String.ofList name) then some (negated, rest) else none
    | _ => none
  | _ => none

def takeItem : List Char → Option (Escape × List Char)
  | [] => none
  | '\\' :: rest => takeEscape rest
  | c :: rest => some (.character false c, rest)

/-- Whether an item of a class goes beyond ASCII, if it can be one. -/
def Mode.reach (m : Mode) : Escape → Option Bool
  | .character octet c =>
    if !m.octets then some false
    else if c.toNat < 0x80 then some false
    else if octet then some true
    else none
  | .shorthand negated => if m.octets then some negated else none
  | _ => none

structure CharClass where
  negated : Bool := false
  /-- Whether what was read since the last operator goes beyond ASCII. -/
  beyond : Bool := false
  before : Bool → Bool := id

namespace CharClass

def add (k : CharClass) (beyond : Bool) : CharClass := { k with beyond := k.beyond || beyond }

/-- An operator: both, the first only, or either but not both. -/
def operator (k : CharClass) (operation : Bool → Bool → Bool) : CharClass :=
  { k with beyond := false, before := operation (k.before k.beyond) }

def result (k : CharClass) : Bool := k.before k.beyond != k.negated

end CharClass

/-- The beginning of a class: a caret negates it; hyphens, and a closing bracket that is the first
item, stand for themselves. -/
def openClass (m : Mode) (cs : List Char) : CharClass × List Char :=
  let tidy (cs : List Char) : List Char := skip m cs.length cs
  let cs := tidy cs
  let negated := cs.head? = some '^'
  let cs := if negated then tidy cs.tail else cs
  let hyphens := cs.dropWhile (· = '-')
  ({ negated },
    if hyphens.head? = some ']' && hyphens.length = cs.length then hyphens.tail else hyphens)

/-- Reads a class up to its closing bracket, and whether it goes beyond ASCII; `around` are the
classes around it. -/
def takeClass (m : Mode) : Nat → CharClass → List CharClass → List Char → Option (Bool × List Char)
  | 0, _, _, _ => none
  | fuel + 1, k, around, cs =>
    match skip m cs.length cs with
    | [] => none
    | ']' :: rest => match around with
      | [] => some (k.result, rest)
      | outer :: around => takeClass m fuel (outer.add k.result) around rest
    | '[' :: rest =>
      match takeNamedClass rest with
      | some (negated, rest) => takeClass m fuel (k.add negated) around rest
      | none =>
        let (inner, rest) := openClass m rest
        takeClass m fuel inner (k :: around) rest
    | '&' :: '&' :: rest => takeClass m fuel (k.operator and) around rest
    | '-' :: '-' :: rest => takeClass m fuel (k.operator fun a b => a && !b) around rest
    | '~' :: '~' :: rest => takeClass m fuel (k.operator xor) around rest
    | cs =>
      (takeItem cs).bind fun (first, rest) =>
        (m.reach first).bind fun low =>
          match skip m rest.length rest with
          | '-' :: more =>
            let after := skip m more.length more
            if after.head? = some ']' || after.head? = some '-' then
              takeClass m fuel (k.add low) around ('-' :: more)
            else
              match first, takeItem after with
              | .character _ a, some (.character octet b, rest) =>
                (m.reach (.character octet b)).bind fun high =>
                  if a ≤ b then takeClass m fuel (k.add high) around rest else none
              | _, _ => none
          | rest => takeClass m fuel (k.add low) around rest

/-! ## Expressions -/

structure Place where
  mode : Mode := {}
  /-- How it was reading outside the open groups, the innermost first. -/
  outer : List Mode := []
  names : List (List Char) := []
  repeatable : Bool := false
  deriving DecidableEq, Repr

def Place.enter (p : Place) (mode : Mode) : Place :=
  { p with mode, outer := p.mode :: p.outer, repeatable := false }

/-- What follows an opening parenthesis: a group with a name, flags, or a plain group. -/
def takeOpening (p : Place) (cs : List Char) : Option (Place × List Char) :=
  let named (rest : List Char) : Option (Place × List Char) :=
    (takeName rest).bind fun (name, rest) =>
      if p.names.contains name then none
      else some ({ p with names := name :: p.names }.enter p.mode, rest)
  match cs with
  | '?' :: 'P' :: '<' :: rest => named rest
  | '?' :: '<' :: '!' :: _ => none
  | '?' :: '<' :: rest => named rest
  | '?' :: rest =>
    (takeFlags p.mode [] false false rest).map fun (mode, group, rest) =>
      (if group then p.enter mode else { p with mode, repeatable := false }, rest)
  | rest => some (p.enter p.mode, rest)

def deepest : Nat := 250

/-- Whether what follows a place is the rest of an expression. -/
def isRest : Nat → Place → List Char → Bool
  | 0, _, _ => false
  | fuel + 1, p, cs =>
    let goOn (rest : List Char) : Bool := isRest fuel { p with repeatable := true } rest
    match skip p.mode cs.length cs with
    | [] => p.outer.isEmpty
    | '(' :: rest =>
      match takeOpening p (skip p.mode rest.length rest) with
      | some (p, rest) => p.outer.length ≤ deepest && isRest fuel p rest
      | none => false
    | ')' :: rest =>
      match p.outer with
      | mode :: outer => isRest fuel { p with mode, outer, repeatable := true } rest
      | [] => false
    | '|' :: rest => isRest fuel { p with repeatable := false } rest
    | '[' :: rest =>
      let (k, rest) := openClass p.mode rest
      match takeClass p.mode (rest.length + 1) k [] rest with
      | some (beyond, rest) => !(if p.mode.octets then beyond else p.mode.caseless) && goOn rest
      | none => false
    | '\x7b' :: _ => false
    | '\\' :: rest =>
      match takeEscape rest with
      | some (.character octet c, rest) => p.mode.hasCharacter octet c && goOn rest
      | some (.shorthand negated, rest) => p.mode.octets && !negated && goOn rest
      | some (.category, _) => false
      | some (.edge, rest) => goOn rest
      | some (.wordEdge, rest) => p.mode.octets && goOn rest
      | none => false
    | c :: rest =>
      if c = '?' || c = '*' || c = '+' then
        p.repeatable && goOn (if rest.head? = some '?' then rest.tail else rest)
      else if c = '.' then !p.mode.octets && goOn rest
      else if c = '^' || c = '$' then goOn rest
      else p.mode.hasCharacter false c && goOn rest

def isExpression (cs : List Char) : Bool := isRest (cs.length + 1) {} cs

def isValue (cs : List Char) : Bool := isNumber cs || isExpression cs

end LanguageClient.Log.Pattern
