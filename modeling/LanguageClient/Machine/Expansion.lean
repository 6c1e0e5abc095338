import LanguageClient.Machine.Arithmetic
import LanguageClient.Machine.Pattern
import LanguageClient.Machine.Shell

/-!
# Working out words

A word of a script is worked out when its command is run. The result is a row of *pieces*:
characters, which remember whether they were quoted and whether fields are divided at them, and
places where one field ends and the next begins. A word of a command can become any number of
fields; elsewhere a word becomes one text.

A word can contain the output of a command. It is not run here: working out stops and says which
command's output is needed, and starts again from the beginning when there is an *answer* to that.
-/

namespace LanguageClient.Machine

/-- The output of a command, without the line feeds at its end, and how the command ended. -/
structure Captured where
  text : List Char
  status : Nat
  deriving DecidableEq, Repr

inductive Stop where
  | needs (c : Command)
  | fault

inductive Piece where
  | char (g : Glyph) (divides : Bool)
  | present
  | absent
  | border
  deriving DecidableEq, Repr

structure Draft where
  shell : Shell
  answers : List Captured
  lastAnswer : Option Nat := none

namespace Expansion

def piecesOfText (inQuotes : Bool) (cs : List Char) : List Piece :=
  cs.map fun c => .char ⟨c, inQuotes⟩ !inQuotes

def glyphs (pieces : List Piece) : List Glyph :=
  pieces.filterMap fun
    | .char g _ => some g
    | _ => none

def textOf (pieces : List Piece) : List Char := (glyphs pieces).map (·.char)

def argumentPieces (inQuotes : Bool) (arguments : List (List Char)) : List Piece :=
  let each := arguments.map fun a =>
    if inQuotes then .present :: piecesOfText true a else piecesOfText false a
  if arguments.isEmpty && inQuotes then [.absent] else (each.intersperse [.border]).flatten

/-- The value of a parameter as pieces; in `fields` if they will be divided into fields. -/
def parameterPieces (fields inQuotes : Bool) (s : Shell) (name : List Char) :
    Except Stop (List Piece) :=
  if fields && (name == ['@'] || (name == ['*'] && !inQuotes)) then
    .ok (argumentPieces inQuotes s.arguments)
  else
    match s.value? name with
    | some v => .ok (piecesOfText inQuotes v)
    | none => if s.has 'u' then .error .fault else .ok []

/-- Pieces of a word that stands in for a value: where they are not quoted fields are divided. -/
def standIn (inQuotes : Bool) (pieces : List Piece) : List Piece :=
  pieces.map fun
    | .char g divides => .char g (divides || (!g.quoted && !inQuotes))
    | p => p

def number? (s : Shell) (name : List Char) : Option Int :=
  Arithmetic.readValue ((s.value? name).getD [])

def setNumber (s : Shell) (name : List Char) (n : Int) : Shell :=
  s.set name (Arithmetic.decimal n)

def worth (s : Shell) (text : List Char) : Except Stop (Int × Shell) :=
  match (Arithmetic.read text).bind (Arithmetic.evaluate number? setNumber s) with
  | some result => .ok result
  | none => .error .fault

mutual

def ofPart (fields : Bool) (d : Draft) : WordPart → Except Stop (List Piece × Draft)
  | .bare c => .ok ([.char ⟨c, false⟩ false], d)
  | .quoted cs =>
    .ok (if cs.isEmpty then [.present] else cs.map fun c => .char ⟨c, true⟩ false, d)
  | .parameter inQuotes name => (parameterPieces fields inQuotes d.shell name).map (·, d)
  | .altered inQuotes name alteration emptyToo word =>
    let isSet := match d.shell.value? name with
      | none => false
      | some v => !(emptyToo && v.isEmpty)
    let value := (parameterPieces fields inQuotes d.shell name).map fun ps =>
      (ps.filter (· != .absent), d)
    match alteration with
    | .instead =>
      if isSet then value
      else (ofParts fields d word).map fun (ps, d) => (standIn inQuotes ps, d)
    | .replaced =>
      if isSet then (ofParts fields d word).map fun (ps, d) => (standIn inQuotes ps, d)
      else .ok ([], d)
    | .required => if isSet then value else .error .fault
    | .assigned =>
      if isSet then value
      else
        match ofParts false d word with
        | .error stop => .error stop
        | .ok (ps, d) =>
          if isName name then
            .ok (piecesOfText inQuotes (textOf ps),
              { d with shell := d.shell.set name (textOf ps) })
          else .error .fault
    | .withoutFront longest | .withoutEnd longest =>
      let cut := match alteration with
        | .withoutFront _ => withoutFront longest
        | _ => withoutEnd longest
      match parameterPieces false inQuotes d.shell name, ofParts false d word with
      | .ok value, .ok (pattern, d) =>
        .ok (piecesOfText inQuotes (cut (glyphs pattern) (textOf value)), d)
      | .error stop, _ | _, .error stop => .error stop
  | .length inQuotes name =>
    (parameterPieces false inQuotes d.shell name).map fun value =>
      (piecesOfText inQuotes (Text.numeral value.length), d)
  | .outputOf _ .nothing => .ok ([], { d with lastAnswer := some 0 })
  | .outputOf inQuotes c =>
    match d.answers with
    | [] => .error (.needs c)
    | a :: rest =>
      .ok (piecesOfText inQuotes a.text, { d with answers := rest, lastAnswer := some a.status })
  | .valueOf inQuotes expression =>
    match ofParts false d expression with
    | .error stop => .error stop
    | .ok (ps, d) =>
      (worth d.shell (textOf ps)).map fun (n, shell) =>
        (piecesOfText inQuotes (Arithmetic.decimal n), { d with shell })
  | .senseless => .error .fault

def ofParts (fields : Bool) (d : Draft) : List WordPart → Except Stop (List Piece × Draft)
  | [] => .ok ([], d)
  | part :: rest =>
    match ofPart fields d part with
    | .error stop => .error stop
    | .ok (ps, d) =>
      match ofParts fields d rest with
      | .error stop => .error stop
      | .ok (more, d) => .ok (ps ++ more, d)

end

def homeName : List Char := octetsOf "HOME"

/-- A tilde at the front of a word stands for the directory of the user. -/
def atHome (s : Shell) : List WordPart → List WordPart
  | .bare '~' :: rest =>
    match rest, s.bindings.lookup homeName with
    | [], some home | .bare '/' :: _, some home => .quoted home :: rest
    | _, _ => .bare '~' :: rest
  | word => word

/-! ## Fields -/

structure Division where
  done : List (List Char) := []
  /-- The field that is being collected, its last character first. -/
  current : Option (List Char) := none
  /-- Whether the last field was ended by a blank, so that a separator may follow it. -/
  loose : Bool := false

def isBlank (c : Char) : Bool := c = ' ' || c = '\t' || c = '\n'

def Division.close (v : Division) (loose : Bool) : Division :=
  match v.current with
  | some field => { done := field :: v.done, current := none, loose }
  | none => { v with loose }

def Division.take (separators : List Char) (v : Division) : Piece → Division
  | .char g divides =>
    if divides && separators.contains g.char then
      if isBlank g.char then if v.current.isSome then v.close true else v
      else if v.current.isSome || v.loose then v.close false
      else { v with done := [] :: v.done }
    else { v with current := some (g.char :: v.current.getD []), loose := false }
  | .present => { v with current := some (v.current.getD []), loose := false }
  | .absent => v
  | .border => v.close false

/-- The fields of a word. A word that consists of all arguments has none if there are none. -/
def fieldsOf (separators : List Char) (pieces : List Piece) : List (List Char) :=
  if pieces = [.present, .absent] then []
  else
    let v := (pieces.foldl (Division.take separators) {}).close false
    v.done.reverse.map List.reverse

def words (d : Draft) : List (List WordPart) → Except Stop (List (List Char) × Draft)
  | [] => .ok ([], d)
  | word :: rest => do
    let (pieces, d) ← ofParts true d (atHome d.shell word)
    let fields := fieldsOf d.shell.separators pieces
    let (more, d) ← words d rest
    .ok (fields ++ more, d)

def text (d : Draft) (word : List WordPart) : Except Stop (List Char × Draft) := do
  let (pieces, d) ← ofParts false d (atHome d.shell word)
  .ok (textOf pieces, d)

def pattern (d : Draft) (word : List WordPart) : Except Stop (List Glyph × Draft) := do
  let (pieces, d) ← ofParts false d (atHome d.shell word)
  .ok (glyphs pieces, d)

def assignments (d : Draft) :
    List (List Char × List WordPart) → Except Stop (List (List Char × List Char) × Draft)
  | [] => .ok ([], d)
  | (name, word) :: rest => do
    let (value, d) ← text d word
    let (more, d) ← assignments { d with shell := d.shell.set name value } rest
    .ok ((name, value) :: more, d)

end Expansion

end LanguageClient.Machine
