import LanguageClient.Text.Numeral
import LanguageClient.Text.Utf8

/-!
# Editions of the format, and what is wrong with a text

There are two editions of TOML, and the newer one takes everything that the older one does. A text
that the newer edition refuses is simply no configuration file. A text that only the newer edition
takes is a different matter: then the place where the older one gives up is shown to people, with
the line it stands in and a mark below it.
-/

namespace LanguageClient.Toml

inductive Edition where
  | older
  /-- Edition 1.1: two more escapes, times of day without seconds, and records that run over several
  lines or end with a comma. -/
  | newer
  deriving DecidableEq, Repr

/-- How deep lists and records can be nested, and how many parts a key can have. -/
def Edition.maxDepth : Edition → Nat
  | .older => 79
  | .newer => 80

inductive Cause where
  | unknownEscape
  | shortTime
  | shortMoment
  | openRecord
  /-- A list that should end here, because what follows is nested too deep. -/
  | openList
  | tooDeep
  | deepHeader
  | malformed
  deriving DecidableEq, Repr

def Cause.message : Cause → String
  | .unknownEscape =>
    "invalid escape sequence\nexpected `b`, `f`, `n`, `r`, `t`, `u`, `U`, `\\`, `\"`"
  | .shortTime => "invalid time"
  | .shortMoment => "invalid date-time"
  | .openRecord => "invalid inline table\nexpected `\x7d`"
  | .openList => "invalid array\nexpected `]`"
  | .tooDeep => "recursion limit exceeded"
  | .deepHeader => "invalid table header\nrecursion limit exceeded"
  | .malformed => "invalid document"

structure Fault where
  left : Nat
  cause : Cause
  deriving DecidableEq, Repr

/-- Refuses a text at a place, given by what follows it. -/
def refuse {α : Type} (cause : Cause) (rest : List Char) : Except Fault α :=
  .error ⟨rest.length, cause⟩

/-- Shows a fault in the text that it was found in: the number of its line and column, the line, and
below it a mark as wide as the octets of the character there, as far as the line goes. -/
def Fault.show (text : List Char) (f : Fault) : String :=
  let before := text.take (text.length - f.left)
  let after := text.drop (text.length - f.left)
  let lines := before.splitOn '\n'
  let row := lines.length
  let column := (lines.getLastD []).length
  let line := (text.splitOn '\n').getD (row - 1) []
  let number := Text.numeral row
  let margin := List.replicate (number.length + 1) ' ' ++ ['|']
  let width := min (after.head?.elim 0 Char.utf8Size) (Text.Utf8.size line - column)
  let mark := List.replicate (column + 1) ' ' ++ List.replicate (max 1 width) '^'
  "TOML parse error at line " ++ String.ofList number ++ ", column " ++
    String.ofList (Text.numeral (column + 1)) ++ "\n" ++
    String.ofList (margin ++ '\n' :: number ++ [' ', '|', ' '] ++ line ++ '\n' :: margin ++ mark) ++
    "\n" ++ f.cause.message ++ "\n"

end LanguageClient.Toml
