/-!
# Shell scripts

A server command can be a shell script, so a rehearsal has to know what scripts do. Here is what a
script consists of: words, which are put together from parts that are worked out when the word is
used, redirections, and commands. `Machine/Script/Reader.lean` reads them, `Machine/Expansion.lean`
works out words, and `Machine/Run.lean` runs commands.

A text in a script is the list of its octets, each as the character of that number. So are the
values that a script works with: what a program reads and writes need not be text at all.
-/

namespace LanguageClient.Machine

inductive Alteration where
  /-- The word stands in for a parameter that is not set. -/
  | instead
  /-- The same, and the parameter is set to it. -/
  | assigned
  | required
  | replaced
  /-- What the word matches at the front is left out, as little as possible or as much. -/
  | withoutFront (longest : Bool)
  /-- What the word matches at the end is left out, as little as possible or as much. -/
  | withoutEnd (longest : Bool)
  deriving DecidableEq, Repr

inductive Opening where
  | reading
  | writing
  /-- A file to write to, even where files are protected from that. -/
  | overwriting
  | appending
  | both
  | duplicate
  deriving DecidableEq, Repr

mutual

/-- A part of a word. Where it makes a difference, `inQuotes` tells whether it stands between double
quotes. -/
inductive WordPart where
  /-- A character that stands for itself, unless the word is used as a pattern. -/
  | bare (c : Char)
  | quoted (cs : List Char)
  | parameter (inQuotes : Bool) (name : List Char)
  /-- The value of a parameter, altered; `emptyToo` if an empty parameter counts as one that is not
  set. -/
  | altered (inQuotes : Bool) (name : List Char) (alteration : Alteration) (emptyToo : Bool)
      (word : List WordPart)
  | length (inQuotes : Bool) (name : List Char)
  | outputOf (inQuotes : Bool) (c : Command)
  | valueOf (inQuotes : Bool) (expression : List WordPart)
  | senseless

inductive Redirection where
  | mk (channel : Nat) (opening : Opening) (target : List WordPart)

inductive Command where
  | nothing
  /-- A program, a function or a builtin with its arguments, or only assignments. -/
  | simple (assignments : List (List Char × List WordPart)) (words : List (List WordPart))
      (redirections : List Redirection)
  | sequence (first second : Command)
  | both (first second : Command)
  | either (first second : Command)
  | negation (c : Command)
  | background (c : Command)
  | pipeline (cs : List Command)
  | subshell (c : Command)
  | redirected (c : Command) (redirections : List Redirection)
  | branch (test yes no : Command)
  /-- A command that is repeated as long as a test succeeds, or as long as it fails. -/
  | loop (whilst : Bool) (test body : Command)
  /-- A command that is repeated for every one of some values; without words, for the arguments. -/
  | each (name : List Char) (words : Option (List (List WordPart))) (body : Command)
  | select (word : List WordPart) (cases : List (List (List WordPart) × Command))
  | function (name : List Char) (body : Command)

end

instance : Inhabited WordPart := ⟨.senseless⟩

instance : Inhabited Command := ⟨.nothing⟩

def octetsOf (text : String) : List Char :=
  text.toUTF8.toList.map fun b => Char.ofNat b.toNat

def isNameStart (c : Char) : Bool := c.isAlpha || c = '_'

def isNameChar (c : Char) : Bool := c.isAlphanum || c = '_'

def isName : List Char → Bool
  | [] => false
  | c :: cs => isNameStart c && cs.all isNameChar

end LanguageClient.Machine
