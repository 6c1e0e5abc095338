import LanguageClient.Machine.Script
import LanguageClient.Text.Numeral

/-!
# Reading shell scripts

A script is run while it is read: what stands on one line, or on as many lines as its commands take
up, is read and run before the next line is looked at. So a mistake in a script only counts when its
line is reached.

There are two kinds of mistakes. Something can stand where it makes no sense, and the script can end
in the middle of something; whoever reads a script that is still being written waits in the second
case.
-/

namespace LanguageClient.Machine

inductive ReadFault where
  | unexpected
  | unfinished
  deriving DecidableEq, Repr

namespace Script

/-! ## Characters -/

/-- The character that begins and ends the older way of writing the output of a command. -/
def backquote : Char := Char.ofNat 96

def isMeta (c : Char) : Bool :=
  c = ' ' || c = '\t' || c = '\n' || c = ';' || c = '&' || c = '|' || c = '<' || c = '>' ||
    c = '(' || c = ')'

inductive Context where
  | word
  | quotes
  | braces
  | quotedBraces
  /-- The parentheses around an expression; within it so many more are open. -/
  | expression (depth : Nat)
  deriving DecidableEq, Repr

namespace Context

def isQuoted : Context → Bool
  | .quotes | .quotedBraces => true
  | _ => false

def part (x : Context) (c : Char) : WordPart := if x.isQuoted then .quoted [c] else .bare c

/-- Whether a backslash takes its meaning from a character. -/
def escapes (x : Context) (c : Char) : Bool :=
  match x with
  | .word | .braces => true
  | .quotes => c = '$' || c = backquote || c = '"' || c = '\\'
  | .quotedBraces => c = '$' || c = backquote || c = '"' || c = '\\' || c = '\x7d'
  | .expression _ => c = '$' || c = backquote || c = '\\'

/-- What surrounds the word behind a character; nothing if the word ends there. -/
def after (x : Context) (c : Char) : Option Context :=
  match x with
  | .word => if isMeta c then none else some x
  | .quotes => if c = '"' then none else some x
  | .braces | .quotedBraces => if c = '\x7d' then none else some x
  | .expression depth =>
    if c = '(' then some (.expression (depth + 1))
    else if c = ')' then if depth = 0 then none else some (.expression (depth - 1))
    else some x

end Context

/-- The parameters with names of one character that is no letter. -/
def isSpecialName (c : Char) : Bool :=
  c = '@' || c = '*' || c = '#' || c = '?' || c = '-' || c = '$' || c = '!' || c.isDigit

def plainName : List Char → Option (List Char × List Char)
  | [] => none
  | c :: cs =>
    if isNameStart c then
      let (more, rest) := cs.span isNameChar
      some (c :: more, rest)
    else if isSpecialName c then some ([c], cs)
    else none

/-- The name of a parameter in braces: it can be a number of several digits. -/
def bracedName (cs : List Char) : Option (List Char × List Char) :=
  match cs.span Char.isDigit with
  | ([], _) => plainName cs
  | (digits, rest) => some (digits, rest)

/-- How a parameter in braces is altered; whether the word after that begins is left open. -/
def alterationOf : List Char → Option (Alteration × Bool × List Char)
  | ':' :: '-' :: rest => some (.instead, true, rest)
  | ':' :: '=' :: rest => some (.assigned, true, rest)
  | ':' :: '?' :: rest => some (.required, true, rest)
  | ':' :: '+' :: rest => some (.replaced, true, rest)
  | '-' :: rest => some (.instead, false, rest)
  | '=' :: rest => some (.assigned, false, rest)
  | '?' :: rest => some (.required, false, rest)
  | '+' :: rest => some (.replaced, false, rest)
  | '#' :: '#' :: rest => some (.withoutFront true, false, rest)
  | '#' :: rest => some (.withoutFront false, false, rest)
  | '%' :: '%' :: rest => some (.withoutEnd true, false, rest)
  | '%' :: rest => some (.withoutEnd false, false, rest)
  | _ => none

/-! ## Between words -/

def skipBlanks : List Char → List Char
  | ' ' :: rest => skipBlanks rest
  | '\t' :: rest => skipBlanks rest
  | '\\' :: '\n' :: rest => skipBlanks rest
  | '#' :: rest => rest.dropWhile (· != '\n')
  | cs => cs

/-- Skips blanks, comments and the ends of lines; for at most `fuel` lines. -/
def skipLines : Nat → List Char → List Char
  | 0, cs => cs
  | fuel + 1, cs =>
    match skipBlanks cs with
    | '\n' :: rest => skipLines fuel rest
    | cs => cs

def keywords : List String :=
  ["!", "\x7b", "\x7d", "case", "do", "done", "elif", "else", "esac", "fi", "for", "if", "in",
    "then", "until", "while"]

def specialNames : List String :=
  [".", ":", "break", "continue", "eval", "exec", "exit", "export", "readonly", "return", "set",
    "shift", "times", "trap", "unset"]

def closers : List String := ["\x7d", "do", "done", "elif", "else", "esac", "fi", "then"]

def keyword? (cs : List Char) : Option (String × List Char) :=
  let (text, rest) := cs.span fun c =>
    !isMeta c && c != '\'' && c != '"' && c != '\\' && c != '$' && c != backquote
  let ends := match rest with
    | [] => true
    | c :: _ => isMeta c
  if ends && keywords.contains (String.ofList text) then some (String.ofList text, rest) else none

/-! ## Reading -/

abbrev Reading (α : Type) : Type := StateT (List Char) (Except ReadFault) α

/-- What stands here makes no sense, if anything does. -/
def stray {α : Type} : Reading α := do
  throw (if (← get).isEmpty then .unfinished else .unexpected)

def skip : Reading Unit := modify skipBlanks

def skipAll : Reading Unit := modify fun cs => skipLines cs.length cs

/-- Whether a text stands here; it is taken then. -/
def take (text : String) : Reading Bool := do
  let cs ← get
  if text.toList.isPrefixOf cs then
    set (cs.drop text.length)
    return true
  return false

def demand (text : String) : Reading Unit := do
  unless ← take text do stray

def keyword (word : String) : Reading Bool := do
  match keyword? (← get) with
  | some (found, rest) =>
    if found = word then set rest
    return found = word
  | none => return false

def expect (word : String) : Reading Unit := do
  unless ← keyword word do stray

/-- What stands before a character, which is taken too. -/
def upTo (last : Char) : Reading (List Char) := do
  let (text, rest) := (← get).span (· != last)
  set rest
  demand (String.singleton last)
  return text

/-- What stands between backquotes, given what follows the first one, and the rest. -/
def splitBackquoted (inQuotes : Bool) : List Char → Option (List Char × List Char)
  | [] => none
  | '\\' :: c :: rest =>
    let isMeant := c = '$' || c = backquote || c = '\\' || (inQuotes && c = '"')
    (splitBackquoted inQuotes rest).map fun (text, rest) =>
      (if isMeant then c :: text else '\\' :: c :: text, rest)
  | c :: rest =>
    if c = backquote then some ([], rest)
    else (splitBackquoted inQuotes rest).map fun (text, rest) => (c :: text, rest)

def backquoted (inQuotes : Bool) : Reading (List Char) := do
  match splitBackquoted inQuotes (← get) with
  | some (text, rest) =>
    set rest
    return text
  | none => throw .unfinished

/-- What is read again and again, as long as there is more of it. -/
def many {α : Type} (read : Reading (Option α)) : Nat → Reading (List α)
  | 0 => return []
  | n + 1 => do
    match ← read with
    | some a => return a :: (← many read n)
    | none => return []

/-! ## Redirections -/

/-- The signs of redirections: how they open their target, and which channel they are for without a
number. -/
def arrows : List (String × Nat × Opening) := [
  ("<&", 0, .duplicate), ("<>", 0, .both), ("<", 0, .reading), (">>", 1, .appending),
  (">&", 1, .duplicate), (">|", 1, .overwriting), (">", 1, .writing)]

def arrow? (cs : List Char) : Option (Nat × Opening × List Char) :=
  (arrows.find? fun (sign, _) => sign.toList.isPrefixOf cs).map fun (sign, channel, opening) =>
    (channel, opening, cs.drop sign.length)

def numberedArrow? (cs : List Char) : Option (Nat × Opening × List Char) :=
  match (cs.head?.bind Text.digitValue) with
  | some n => (arrow? cs.tail).map fun (_, opening, rest) => (n, opening, rest)
  | none => arrow? cs

/-- The characters of a word if it is used as it stands, and whether some of them are quoted. -/
def literally : List WordPart → List Char × Bool
  | [] => ([], false)
  | .bare c :: rest =>
    let (text, quoted) := literally rest
    (c :: text, quoted)
  | .quoted cs :: rest => (cs ++ (literally rest).1, true)
  | _ :: rest => literally rest

/-- The name that a word is, if it is one. -/
def nameOf? (word : List WordPart) : Option (List Char) :=
  let (text, quoted) := literally word
  if quoted || !isName text || text.length != word.length then none else some text

def assignment? (word : List WordPart) : Option (List Char × List WordPart) :=
  let name := word.takeWhile fun
    | .bare c => c != '='
    | _ => false
  let text := (literally name).1
  match word.drop name.length with
  | .bare '=' :: value => if isName text then some (text, value) else none
  | _ => none

/-- The next word, if there is one, given how the parts of a word are read. -/
def word? (parts : Reading (List WordPart)) : Reading (Option (List WordPart)) := do
  skip
  let found ← parts
  return if found.isEmpty then none else some found

def wordOf (parts : Reading (List WordPart)) : Reading (List WordPart) := do
  match ← word? parts with
  | some found => return found
  | none => stray

def redirection? (parts : Reading (List WordPart)) : Reading (Option Redirection) := do
  skip
  match numberedArrow? (← get) with
  | none => return none
  | some (channel, opening, rest) =>
    set rest
    return some (.mk channel opening (← wordOf parts))

/-- The name whose length is asked for between braces. -/
def lengthName? (cs : List Char) : Option (List Char × List Char) :=
  match cs with
  | '#' :: rest =>
    match bracedName rest with
    | some (name, '\x7d' :: rest) => some (name, rest)
    | _ => none
  | _ => none

/-! ## Words and commands -/

mutual

/-- The parts of a word up to what ends it; that is left out unless it is the next word. -/
def parts : Nat → Context → Reading (List WordPart)
  | 0, _ => throw .unexpected
  | fuel + 1, x => do
    match ← get with
    | [] => if x = .word then return [] else throw .unfinished
    | c :: rest =>
      match x.after c with
      | none =>
        unless x = .word do set rest
        if x = .expression 0 then demand ")"
        return []
      | some next =>
        set rest
        let found ← part fuel x c rest
        return found ++ (← parts fuel next)

/-- The parts that begin with a character, which is taken already. -/
def part : Nat → Context → Char → List Char → Reading (List WordPart)
  | 0, _, _, _ => throw .unexpected
  | fuel + 1, x, c, rest => do
    let isPlain := match x with
      | .expression _ => true
      | _ => false
    if c = '\\' then
      match rest with
      | '\n' :: more =>
        set more
        return []
      | e :: more =>
        if x.escapes e then
          set more
          return [.quoted [e]]
        else return [x.part c]
      | [] => return [.quoted [c]]
    else if c = '$' then return [← dollar fuel x.isQuoted]
    else if c = backquote then
      let text ← backquoted x.isQuoted
      let (command, left) ← (list fuel true).run text
      unless left.isEmpty do throw .unexpected
      return [.outputOf x.isQuoted command]
    else if c = '\'' && !x.isQuoted && !isPlain then return [.quoted (← upTo '\'')]
    else if c = '"' && !isPlain then
      let inner ← parts fuel .quotes
      return if x.isQuoted then inner else .quoted [] :: inner
    else return [x.part c]

def dollar : Nat → Bool → Reading WordPart
  | 0, _ => throw .unexpected
  | fuel + 1, inQuotes => do
    if ← take "((" then return .valueOf inQuotes (← parts fuel (.expression 0))
    if ← take "(" then
      let command ← list fuel true
      demand ")"
      return .outputOf inQuotes command
    if ← take "\x7b" then return ← braced fuel inQuotes
    match plainName (← get) with
    | some (name, rest) =>
      set rest
      return .parameter inQuotes name
    | none => return if inQuotes then .quoted ['$'] else .bare '$'

def braced : Nat → Bool → Reading WordPart
  | 0, _ => throw .unexpected
  | fuel + 1, inQuotes => do
    let x : Context := if inQuotes then .quotedBraces else .braces
    let cs ← get
    if let some (name, rest) := lengthName? cs then
      set rest
      return .length inQuotes name
    let found := bracedName cs
    if let some (name, '\x7d' :: rest) := found then
      set rest
      return .parameter inQuotes name
    match found.bind fun (name, rest) => (alterationOf rest).map (name, ·) with
    | some (name, alteration, emptyToo, rest) =>
      set rest
      let isPattern := match alteration with
        | .withoutFront _ | .withoutEnd _ => true
        | _ => false
      return .altered inQuotes name alteration emptyToo
        (← parts fuel (if isPattern then .braces else x))
    | none =>
      let _ ← parts fuel x
      return .senseless

/-- The assignments, words and redirections of a simple command; `begun` once there was a word that
is no assignment. -/
def simple : Nat → Bool →
    Reading (List (List Char × List WordPart) × List (List WordPart) × List Redirection)
  | 0, _ => throw .unexpected
  | fuel + 1, begun => do
    if let some r ← redirection? (parts fuel .word) then
      let (assignments, words, redirections) ← simple fuel begun
      return (assignments, words, r :: redirections)
    let some found ← word? (parts fuel .word) | return ([], [], [])
    match if begun then none else assignment? found with
    | some a =>
      let (assignments, words, redirections) ← simple fuel false
      return (a :: assignments, words, redirections)
    | none =>
      let (assignments, words, redirections) ← simple fuel true
      return (assignments, found :: words, redirections)

def patterns : Nat → Reading (List (List WordPart))
  | 0 => throw .unexpected
  | fuel + 1 => do
    let pattern ← wordOf (parts fuel .word)
    skip
    if ← take "|" then return pattern :: (← patterns fuel)
    demand ")"
    return [pattern]

def cases : Nat → Reading (List (List (List WordPart) × Command))
  | 0 => throw .unexpected
  | fuel + 1 => do
    skipAll
    if ← keyword "esac" then return []
    let _ ← take "("
    let found ← patterns fuel
    let body ← list fuel true
    if ← take ";;" then return (found, body) :: (← cases fuel)
    expect "esac"
    return [(found, body)]

def branches : Nat → Reading Command
  | 0 => throw .unexpected
  | fuel + 1 => do
    let test ← list fuel false
    expect "then"
    let yes ← list fuel false
    if ← keyword "elif" then return .branch test yes (← branches fuel)
    let no ← if ← keyword "else" then list fuel false else pure .nothing
    expect "fi"
    return .branch test yes no

def loopBody : Nat → Reading Command
  | 0 => throw .unexpected
  | fuel + 1 => do
    skipAll
    expect "do"
    let body ← list fuel false
    expect "done"
    return body

def each : Nat → Reading Command
  | 0 => throw .unexpected
  | fuel + 1 => do
    let some name := nameOf? (← wordOf (parts fuel .word)) | throw .unexpected
    skipAll
    if ← keyword "in" then
      let found ← many (word? (parts fuel .word)) fuel
      unless ← take ";" do demand "\n"
      return .each name (some found) (← loopBody fuel)
    let _ ← take ";"
    return .each name none (← loopBody fuel)

def compound : Nat → Reading (Option Command)
  | 0 => throw .unexpected
  | fuel + 1 => do
    if ← take "(" then
      let c ← list fuel false
      demand ")"
      return some (.subshell c)
    let some (found, rest) := keyword? (← get) | return none
    set rest
    match found with
    | "\x7b" =>
      let c ← list fuel false
      expect "\x7d"
      return some c
    | "if" => return some (← branches fuel)
    | "while" | "until" =>
      let test ← list fuel false
      return some (.loop (found = "while") test (← loopBody fuel))
    | "for" => return some (← each fuel)
    | "case" =>
      let value ← wordOf (parts fuel .word)
      skipAll
      expect "in"
      return some (.select value (← cases fuel))
    | _ => throw .unexpected

def command : Nat → Reading Command
  | 0 => throw .unexpected
  | fuel + 1 => do
    skip
    if let some c ← compound fuel then
      let found ← many (redirection? (parts fuel .word)) fuel
      return if found.isEmpty then c else .redirected c found
    let (assignments, words, redirections) ← simple fuel false
    match assignments, words, redirections with
    | [], [], [] => stray
    | [], [name], [] =>
      if ← take "(" then
        skip
        demand ")"
        let some name := (nameOf? name).filter fun n => !specialNames.contains (String.ofList n)
          | throw .unexpected
        skipAll
        return .function name (← command fuel)
      return .simple assignments words redirections
    | _, _, _ => return .simple assignments words redirections

def piped : Nat → Reading (List Command)
  | 0 => throw .unexpected
  | fuel + 1 => do
    let c ← command fuel
    skip
    if "||".toList.isPrefixOf (← get) then return [c]
    unless ← take "|" do return [c]
    skipAll
    return c :: (← piped fuel)

def pipeline : Nat → Reading Command
  | 0 => throw .unexpected
  | fuel + 1 => do
    skip
    let negated ← keyword "!"
    let found ← piped fuel
    let c := match found with
      | [c] => c
      | cs => .pipeline cs
    return if negated then .negation c else c

/-- The pipelines that are run one after the other as the outcome of the ones before has it. -/
def chain : Nat → Command → Reading Command
  | 0, _ => throw .unexpected
  | fuel + 1, before => do
    skip
    if ← take "&&" then
      skipAll
      return ← chain fuel (.both before (← pipeline fuel))
    if ← take "||" then
      skipAll
      return ← chain fuel (.either before (← pipeline fuel))
    return before

/-- A list of commands on as many lines as it takes, up to something that ends it, which is left.
`optional` if it may be empty. -/
def list : Nat → Bool → Reading Command
  | 0, _ => throw .unexpected
  | fuel + 1, optional => do
    skipAll
    let cs ← get
    let isCloser := (keyword? cs).any fun (word, _) => closers.contains word
    if optional && (cs.isEmpty || cs.head? = some ')' || ";;".toList.isPrefixOf cs || isCloser) then
      return .nothing
    let c ← chain fuel (← pipeline fuel)
    if ";;".toList.isPrefixOf (← get) then return c
    if ← take "&" then return .sequence (.background c) (← list fuel true)
    unless ← take ";" do
      unless ← take "\n" do return c
    return .sequence c (← list fuel true)

/-- The commands of a line, and whether the line is ended. -/
def line : Nat → Reading (Command × Bool)
  | 0 => throw .unexpected
  | fuel + 1 => do
    skip
    if (← get).isEmpty then return (.nothing, false)
    if ← take "\n" then return (.nothing, true)
    let c ← chain fuel (← pipeline fuel)
    if (← get).isEmpty then return (c, false)
    if ← take "\n" then return (c, true)
    if ";;".toList.isPrefixOf (← get) then throw .unexpected
    let apart ← take ";"
    unless apart do demand "&"
    let (more, ended) ← line fuel
    return (.sequence (if apart then c else .background c) more, ended)

end

/-- The commands on the first line of a script, and the rest of it if that line is ended. -/
def readLine (cs : List Char) : Except ReadFault (Command × Option (List Char)) := do
  let ((c, ended), rest) ← (line (16 * cs.length + 16)).run cs
  return (c, if ended then some rest else none)

end Script

end LanguageClient.Machine
