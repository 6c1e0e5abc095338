import LanguageClient.Toml.Quoted
import LanguageClient.Toml.Scalar
import LanguageClient.Toml.Tree

/-!
# Reading configuration files

A configuration file is read line by line into the tree of `Toml/Tree.lean`, by the rules of one
edition. Readers take a list of characters and answer what they have read and the rest, or what is
wrong and where.
-/

namespace LanguageClient.Toml

def isGap (c : Char) : Bool := c = ' ' || c = '\t'

def skipGap (cs : List Char) : List Char := cs.dropWhile isGap

def skipComment : List Char → List Char
  | '#' :: rest => rest.dropWhile isPlain
  | cs => cs

def takeBreak : List Char → Option (List Char)
  | '\n' :: rest => some rest
  | '\r' :: '\n' :: rest => some rest
  | _ => none

def takeLineEnd (cs : List Char) : Option (List Char) :=
  match skipComment (skipGap cs) with
  | [] => some []
  | rest => takeBreak rest

def skipSpace : Nat → List Char → List Char
  | 0, cs => cs
  | fuel + 1, cs =>
    let rest := skipComment (skipGap cs)
    match takeBreak rest with
    | some rest => skipSpace fuel rest
    | none => rest

/-! ## Keys -/

def isKeyChar (c : Char) : Bool := c.isAlphanum || c = '_' || c = '-'

def readKeyPart (e : Edition) (cs : List Char) : Except Fault (String × List Char) :=
  match cs.span isKeyChar with
  | ([], _) => do
    let (text, rest) ← readQuoted e cs
    return (String.ofList text, rest)
  | (word, rest) => .ok (String.ofList word, rest)

def readParts (e : Edition) : Nat → List Char → Except Fault (List String × List Char)
  | 0, cs => refuse .malformed cs
  | fuel + 1, cs => do
    let (part, rest) ← readKeyPart e (skipGap cs)
    match skipGap rest with
    | '.' :: rest =>
      let (parts, rest) ← readParts e fuel rest
      return (part :: parts, rest)
    | rest => return ([part], rest)

/-- A key. One with too many parts is refused at its beginning. -/
def readKey (e : Edition) (cs : List Char) : Except Fault (List String × List Char) := do
  let (parts, rest) ← readParts e cs.length cs
  if e.maxDepth < parts.length then refuse .tooDeep cs else return (parts, rest)

/-- What a change to the tree makes of it; one that would write something down twice is refused. -/
def written {α : Type} (rest : List Char) : Option α → Except Fault α
  | some a => .ok a
  | none => refuse .malformed rest

/-! ## Values -/

def isWordChar (c : Char) : Bool :=
  c.isAlphanum || c = '+' || c = '-' || c = '_' || c = '.' || c = ':'

/-- A word. A blank between a date and a time belongs to it. -/
def takeWord (cs : List Char) : List Char × List Char :=
  let (word, rest) := cs.span isWordChar
  match rest with
  | ' ' :: next :: more =>
    if isDate word && next.isDigit then
      let (time, rest) := (next :: more).span isWordChar
      (word ++ ' ' :: time, rest)
    else (word, rest)
  | _ => (word, rest)

def skipInRecord : Edition → List Char → List Char
  | .older, cs => skipGap cs
  | .newer, cs => skipSpace cs.length cs

def startsKey (e : Edition) (cs : List Char) : Bool :=
  match skipGap cs with
  | '"' :: _ | '\'' :: _ => fits
  | c :: _ => isKeyChar c && fits
  | [] => false
where
  /-- Whether the key is short enough, or wrong in some other way. -/
  fits : Bool := match readKey e cs with
    | .error f => f.cause != .tooDeep
    | .ok _ => true

mutual

def readValue (e : Edition) : Nat → Nat → List Char → Except Fault (Json × List Char)
  | 0, _, cs => refuse .malformed cs
  | fuel + 1, depth, cs =>
    match cs with
    | '"' :: _ | '\'' :: _ => do
      let (text, rest) ← readText e cs
      return (.str (String.ofList text), rest)
    | '[' :: rest =>
      match depth with
      | 0 => refuse .tooDeep cs
      | depth + 1 => do
        let (items, rest) ← readItems e fuel depth rest
        return (.arr items, rest)
    | '\x7b' :: rest =>
      match depth with
      | 0 => refuse .tooDeep cs
      | depth + 1 => do
        let (entries, rest) ← readMembers e fuel depth [] rest (skipInRecord e rest)
        return (Json.ofMembers (membersOf entries), rest)
    | _ =>
      let (word, rest) := takeWord cs
      readWord e word rest

/-- The items of a list, up to its closing bracket. A list whose next item is nested too deep should
have ended before it. -/
def readItems (e : Edition) : Nat → Nat → List Char → Except Fault (List Json × List Char)
  | 0, _, cs => refuse .malformed cs
  | fuel + 1, depth, cs =>
    match skipSpace cs.length cs with
    | ']' :: rest => .ok ([], rest)
    | cs =>
      if depth = 0 ∧ (cs.head? = some '[' ∨ cs.head? = some '\x7b') then refuse .openList cs
      else do
        let (item, rest) ← readValue e fuel depth cs
        match skipSpace rest.length rest with
        | ',' :: rest =>
          let (items, rest) ← readItems e fuel depth rest
          return (item :: items, rest)
        | ']' :: rest => return ([item], rest)
        | rest => refuse .malformed rest

/-- The members of a record, up to its closing brace. If no member follows, then the record should
have ended at `place`: at its beginning, or at the comma before the missing member. -/
def readMembers (e : Edition) :
    Nat → Nat → Entries → List Char → List Char → Except Fault (Entries × List Char)
  | 0, _, _, _, cs => refuse .malformed cs
  | fuel + 1, depth, entries, place, cs =>
    if startsKey e cs then do
      let (parts, rest) ← readKey e cs
      let (path, key) ← written rest (splitLast parts)
      match rest with
      | '=' :: rest =>
        let (v, rest) ← readValue e fuel depth (skipGap rest)
        let entries ← written rest (addValue path key v .header entries)
        match skipInRecord e rest with
        | ',' :: more =>
          match e, skipInRecord e more with
          | .newer, '\x7d' :: rest => return (entries, rest)
          | _, next => readMembers e fuel depth entries (',' :: more) next
        | '\x7d' :: rest => return (entries, rest)
        | rest => refuse .openRecord rest
      | rest => refuse .malformed rest
    else
      match entries, cs with
      | [], '\x7d' :: rest => .ok ([], rest)
      | [], _ => refuse .openRecord cs
      | _, _ => refuse .openRecord place

end

/-! ## Lines -/

structure Draft where
  root : Entries := []
  current : List String := []

def readHeader (e : Edition) (close : List Char) (cs : List Char) :
    Except Fault (List String × List Char) :=
  match readKey e cs with
  | .error ⟨left, .tooDeep⟩ => .error ⟨left, .deepHeader⟩
  | .error f => .error f
  | .ok (parts, rest) =>
    if rest.take close.length = close then .ok (parts, rest.drop close.length)
    else refuse .malformed rest

def Draft.openAt (d : Draft) (parts : List String)
    (f : List String → String → Entries → Option Entries) : Option Draft :=
  (splitLast parts).bind fun (path, key) =>
    (f path key d.root).map fun root => { root, current := parts }

def Draft.add (d : Draft) (parts : List String) (v : Json) : Option Draft :=
  (splitLast parts).bind fun (path, key) =>
    (within false (addValue path key v) d.current .header d.root).map fun root =>
      { d with root }

def readLine (e : Edition) (d : Draft) (cs : List Char) : Except Fault (Draft × List Char) :=
  match cs with
  | '[' :: '[' :: rest => do
    let (parts, rest) ← readHeader e [']', ']'] rest
    return (← written rest (d.openAt parts openElement), rest)
  | '[' :: rest => do
    let (parts, rest) ← readHeader e [']'] rest
    return (← written rest (d.openAt parts openTable), rest)
  | _ => do
    let (parts, rest) ← readKey e cs
    match rest with
    | '=' :: rest =>
      let (v, rest) ← readValue e (4 * rest.length + 4) e.maxDepth (skipGap rest)
      return (← written rest (d.add parts v), rest)
    | rest => refuse .malformed rest

def readLinesOf (e : Edition) : Nat → Draft → List Char → Except Fault Draft
  | 0, _, cs => refuse .malformed cs
  | fuel + 1, d, cs =>
    match skipSpace cs.length cs with
    | [] => .ok d
    | cs => do
      let (d, rest) ← readLine e d cs
      match takeLineEnd rest with
      | some rest => readLinesOf e fuel d rest
      | none => refuse .malformed rest

def withoutMark : List Char → List Char
  | '\ufeff' :: rest => rest
  | cs => cs

def parse (e : Edition) (text : List Char) : Except Fault Json := do
  let cs := withoutMark text
  let d ← readLinesOf e (cs.length + 1) {} cs
  return Json.ofMembers (membersOf d.root)

end LanguageClient.Toml
