import LanguageClient.Text.Hex
import LanguageClient.Toml.Fault

/-!
# Quoted texts

There are four kinds: in double or single quotes, on one line or on several. Only double quotes know
escapes, and the newer edition knows two more of them than the older one. Every reader here is given
what follows the opening quotes and answers the text and what follows the closing ones.
-/

namespace LanguageClient.Toml

/-- The characters that may stand in a comment or a text as themselves: a tab, and everything that
is not a control character. -/
def isPlain (c : Char) : Bool := c = '\t' || (0x20 ≤ c.toNat && c.toNat ≠ 0x7F)

def charOfHex (digits : List Char) : Option Char :=
  (Text.Hex.number digits).bind fun n =>
    if n < 0xD800 ∨ (0xDFFF < n ∧ n < 0x110000) then some (Char.ofNat n) else none

def escapedChar : Char → Option Char
  | 'b' => some '\x08'
  | 't' => some '\t'
  | 'n' => some '\n'
  | 'f' => some '\x0c'
  | 'r' => some '\r'
  | '"' => some '"'
  | '\\' => some '\\'
  | _ => none

def takeCode (count : Nat) (cs : List Char) : Except Fault (Char × List Char) :=
  match if cs.length < count then none else charOfHex (cs.take count) with
  | some c => .ok (c, cs.drop count)
  | none => refuse .malformed cs

def readEscape (e : Edition) : List Char → Except Fault (Char × List Char)
  | 'u' :: rest => takeCode 4 rest
  | 'U' :: rest => takeCode 8 rest
  | c :: rest =>
    match escapedChar c with
    | some plain => .ok (plain, rest)
    | none =>
      if e = .newer ∧ c = 'e' then .ok ('\x1b', rest)
      else if e = .newer ∧ c = 'x' then takeCode 2 rest
      else refuse .unknownEscape rest
  | [] => refuse .malformed []

def readBasic (e : Edition) : Nat → List Char → Except Fault (List Char × List Char)
  | 0, cs => refuse .malformed cs
  | _, [] => refuse .malformed []
  | fuel + 1, c :: rest =>
    if c = '"' then .ok ([], rest)
    else if c = '\\' then do
      let (plain, rest) ← readEscape e rest
      let (text, rest) ← readBasic e fuel rest
      return (plain :: text, rest)
    else if isPlain c then do
      let (text, rest) ← readBasic e fuel rest
      return (c :: text, rest)
    else refuse .malformed (c :: rest)

def readLiteral : List Char → Except Fault (List Char × List Char)
  | [] => refuse .malformed []
  | c :: rest =>
    if c = '\'' then .ok ([], rest)
    else if isPlain c then do
      let (text, rest) ← readLiteral rest
      return (c :: text, rest)
    else refuse .malformed (c :: rest)

/-- A text on several lines does not begin with the line break after its opening quotes. -/
def dropFirstBreak : List Char → List Char
  | '\n' :: rest => rest
  | '\r' :: '\n' :: rest => rest
  | cs => cs

/-- Three quotes in a row close a text on several lines; up to two more before them belong to it. -/
def closing (quote : Char) (cs : List Char) : Option (List Char × List Char) :=
  let count := (cs.takeWhile (· = quote)).length
  if 3 ≤ count then
    let inside := min (count - 3) 2
    some (List.replicate inside quote, cs.drop (inside + 3))
  else none

def skipBreaks : List Char → List Char
  | ' ' :: rest => skipBreaks rest
  | '\t' :: rest => skipBreaks rest
  | '\n' :: rest => skipBreaks rest
  | '\r' :: '\n' :: rest => skipBreaks rest
  | cs => cs

/-- What follows a backslash at the end of a line: the text goes on with the next character that is
no blank and no line break. -/
def continued (rest : List Char) : Option (List Char) :=
  match rest.dropWhile fun c => c = ' ' || c = '\t' with
  | '\n' :: more => some (skipBreaks more)
  | '\r' :: '\n' :: more => some (skipBreaks more)
  | _ => none

/-- The rest of a text on several lines; `escapes` says whether a backslash is special. Line breaks
are kept as plain line feeds. -/
def readLines (e : Edition) (quote : Char) (escapes : Bool) :
    Nat → List Char → Except Fault (List Char × List Char)
  | 0, cs => refuse .malformed cs
  | _, [] => refuse .malformed []
  | fuel + 1, c :: rest =>
    match closing quote (c :: rest) with
    | some closed => .ok closed
    | none =>
      let goOn (text : List Char) (rest : List Char) : Except Fault (List Char × List Char) := do
        let (more, rest) ← readLines e quote escapes fuel rest
        return (text ++ more, rest)
      if escapes && c = '\\' then
        match continued rest with
        | some rest => goOn [] rest
        | none => do
          let (plain, rest) ← readEscape e rest
          goOn [plain] rest
      else if c = '\n' then goOn [c] rest
      else if c = '\r' then
        match rest with
        | '\n' :: rest => goOn ['\n'] rest
        | _ => refuse .malformed (c :: rest)
      else if isPlain c then goOn [c] rest
      else refuse .malformed (c :: rest)

def readQuoted (e : Edition) (cs : List Char) : Except Fault (List Char × List Char) :=
  match cs with
  | '"' :: rest => readBasic e (rest.length + 1) rest
  | '\'' :: rest => readLiteral rest
  | _ => refuse .malformed cs

def readText (e : Edition) (cs : List Char) : Except Fault (List Char × List Char) :=
  match cs with
  | '"' :: '"' :: '"' :: rest => readLines e '"' true (rest.length + 1) (dropFirstBreak rest)
  | '\'' :: '\'' :: '\'' :: rest => readLines e '\'' false (rest.length + 1) (dropFirstBreak rest)
  | _ => readQuoted e cs

end LanguageClient.Toml
