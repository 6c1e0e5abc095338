import LanguageClient.Json.Overlay
import LanguageClient.Text.Ascii
import LanguageClient.Text.Blank
import LanguageClient.Toml.Quoted

/-!
# Settings in the environment

A variable whose name begins with `FIREBALL_` sets the setting named by the rest, in any case. The
value is text, and what it means is read off its look: a truth value, a number, a quoted text, a
list or a record; whatever looks like none of these is a text as it stands. So a value can have a
type that its setting does not take, and the type is all that counts then.
-/

namespace LanguageClient.Variables

def stem : String := "FIREBALL_"

/-! ## Numbers -/

def leadingDigits : Nat → Nat → List Char → Nat × Nat × List Char
  | value, count, [] => (value, count, [])
  | value, count, c :: cs =>
    match Text.digitValue c with
    | some d => leadingDigits (10 * value + d) (count + 1) cs
    | none => (value, count, c :: cs)

def leadingSign : List Char → Bool × List Char
  | '-' :: rest => (true, rest)
  | '+' :: rest => (false, rest)
  | cs => (false, cs)

def readExponent : List Char → Option Int
  | [] => some 0
  | mark :: rest =>
    if mark = 'e' ∨ mark = 'E' then
      let (down, rest) := leadingSign rest
      match leadingDigits 0 0 rest with
      | (_, 0, _) => none
      | (value, _, []) => some (if down then -(value : Int) else (value : Int))
      | _ => none
    else none

/-- A number with a decimal point. One beyond the largest number is no number. -/
def readDecimal (cs : List Char) : Option Json :=
  let (negative, cs) := leadingSign cs
  let (whole, wholeCount, rest) := leadingDigits 0 0 cs
  match rest with
  | '.' :: rest =>
    let (value, count, rest) := leadingDigits whole 0 rest
    if wholeCount + count = 0 then none
    else
      (readExponent rest).map fun e =>
        match Decimal.Binary64.ofDecimal negative value (e - count) with
        | some x => .num (.float x)
        | none => .null
  | _ => none

def readWhole (cs : List Char) : Option Json :=
  match Text.readNumeral Text.maxWord64 cs with
  | some n => some (Json.ofNat n)
  | none =>
    match cs with
    | '-' :: c :: digits =>
      (Text.digitsValue 0 (c :: digits)).bind fun n =>
        if n ≤ 9223372036854775808 then some (Json.ofInt (-n)) else none
    | _ => none

def plainValue (cs : List Char) : Json :=
  let asDecimal := if cs.contains '.' then readDecimal cs else none
  match asDecimal.or (readWhole cs) with
  | some v => v
  | none => .str (String.ofList cs)

/-! ## Truth values and quoted texts -/

def afterWord (word cs : List Char) : Option (List Char) :=
  if Text.sameIgnoringCase (cs.take word.length) word then some (cs.drop word.length) else none

def readTruth (cs : List Char) : Option (Bool × List Char) :=
  match afterWord ['t', 'r', 'u', 'e'] cs with
  | some rest => some (true, rest)
  | none => (afterWord ['f', 'a', 'l', 's', 'e'] cs).map (false, ·)

def takeOctets : Nat → List Char → List Char
  | _, [] => []
  | room, c :: cs => if c.utf8Size ≤ room then c :: takeOctets (room - c.utf8Size) cs else []

/-- A text in double quotes, given what follows the opening quote. If there is an escape, then of
the characters before the first one as many octets are kept as there are characters: everything as
long as they are ASCII. -/
def readQuoted (cs : List Char) : Option (String × List Char) :=
  (Toml.readBasic .older (cs.length + 1) cs).toOption.map fun (text, rest) =>
    let (front, more) := cs.span fun c => c != '\\' && c != '"'
    let kept := if more.head? = some '\\' then takeOctets front.length front else front
    (String.ofList (kept ++ text.drop front.length), rest)

/-! ## Lists and records -/

/-- The characters that end a plain value inside a list or a record. -/
def isSeparator (c : Char) : Bool :=
  c = ',' || c = '[' || c = ']' || c = '\x7b' || c = '\x7d'

def isSpace (c : Char) : Bool := c = ' ' || ('\t' ≤ c && c ≤ '\r' && c != '\x0b')

def skipSpaces (cs : List Char) : List Char := cs.dropWhile isSpace

def isKeyChar (c : Char) : Bool := c.isAlphanum || c = '_' || c = '-'

def readKey (cs : List Char) : Option (String × List Char) :=
  match cs with
  | '"' :: rest => readQuoted rest
  | _ =>
    match cs.span isKeyChar with
    | ([], _) => none
    | (key, rest) => some (String.ofList key, rest)

mutual

def readValue : Nat → List Char → Option (Json × List Char)
  | 0, _ => none
  | fuel + 1, cs =>
    let read : Option (Json × List Char) := match skipSpaces cs with
      | '"' :: rest => (readQuoted rest).map fun (t, rest) => (Json.str t, rest)
      | '\'' :: c :: '\'' :: rest => some (Json.str (String.ofList [c]), rest)
      | '\'' :: _ => none
      | '[' :: rest => (readItems fuel rest).map fun (items, rest) => (Json.arr items, rest)
      | '\x7b' :: rest =>
        (readMembers fuel rest).map fun (members, rest) => (Json.ofMembers members, rest)
      | cs =>
        match readTruth cs with
        | some (b, rest) => some (.bool b, rest)
        | none =>
          let (word, rest) := cs.span (fun c => !isSeparator c)
          some (plainValue (Text.trim word), rest)
    read.map fun (v, rest) => (v, skipSpaces rest)

def readItems : Nat → List Char → Option (List Json × List Char)
  | 0, _ => none
  | _, ']' :: rest => some ([], rest)
  | fuel + 1, cs =>
    (readValue fuel cs).bind fun (v, rest) =>
      match rest with
      | ',' :: rest => (readItems fuel rest).map fun (vs, rest) => (v :: vs, rest)
      | ']' :: rest => some ([v], rest)
      | _ => none

def readMembers : Nat → List Char → Option (List (String × Json) × List Char)
  | 0, _ => none
  | _, '\x7d' :: rest => some ([], rest)
  | fuel + 1, cs =>
    (readKey (skipSpaces cs)).bind fun (key, rest) =>
      match skipSpaces rest with
      | '=' :: rest =>
        (readValue fuel rest).bind fun (v, rest) =>
          match rest with
          | ',' :: rest => (readMembers fuel rest).map fun (ms, rest) => ((key, v) :: ms, rest)
          | '\x7d' :: rest => some ([(key, v)], rest)
          | _ => none
      | _ => none

end

/-- A text as a value: if it cannot be read as a whole it stands for itself. -/
def structuredValue (cs : List Char) : Json :=
  match readValue (4 * cs.length + 4) cs with
  | some (v, []) => v
  | _ => .str (String.ofList cs)

/-! ## Variables -/

/-- Whether a text is a list without brackets: it has a comma and begins with no bracket or quote.
-/
def isBareList (cs : List Char) : Bool :=
  cs.contains ',' && !(match cs with
    | c :: _ => c = '[' || c = '\x7b' || c = '"' || c = '\''
    | [] => false)

def valueOf (text : String) : Json :=
  let cs := Text.trim text.toList
  if isBareList cs then .arr ((cs.splitOn ',').map fun p => .str (String.ofList (Text.trim p)))
  else structuredValue cs

/-- The setting that a variable sets, in lower case, as the way to it: a point leads into a record.
Blanks around the name, and around what follows the stem, do not count. -/
def settingPath (name : String) : Option (List String) :=
  (afterWord stem.toList (Text.trim name.toList)).bind fun key =>
    let parts := (Text.lower (Text.trim key)).splitOn '.'
    if parts.contains [] then none else some (parts.map String.ofList)

def nested (path : List String) (value : Json) : Json :=
  path.foldr (fun key inner => .obj [(key, inner)]) value

/-- The layer of settings that an environment stands for. Later variables count. -/
def layer (environment : List (String × String)) : Json :=
  environment.foldl (fun lower (name, text) =>
    match settingPath name with
    | some path => (nested path (valueOf text)).overlay lower
    | none => lower) (.obj [])

def get? (environment : List (String × String)) (name : String) : Option String :=
  environment.lookup name

end LanguageClient.Variables
