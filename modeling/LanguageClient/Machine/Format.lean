import LanguageClient.Machine.Arithmetic
import LanguageClient.Text.Numeral

/-!
# Printing with a format

A format is a text with *directives*, each of which takes an argument and says how to write it. A
format is used again as long as arguments are left. The shell and the program that is called the
same differ in a few points, which make up a *manner*.
-/

namespace LanguageClient.Machine.Format

/-- Which escapes there are besides those of one letter and those in base eight. -/
structure Escapes where
  hex : Bool := false
  quote : Bool := false
  deriving DecidableEq, Repr

structure Manner where
  escapes : Escapes
  /-- Whether a format can have an escape that ends all output. -/
  stops : Bool
  /-- The status if a directive makes no sense. -/
  refusal : Nat
  deriving DecidableEq, Repr

def builtin : Manner :=
  { escapes := {}, stops := false, refusal := 2 }

def program : Manner :=
  { escapes := ⟨true, true⟩, stops := true, refusal := 1 }

/-! ## Escapes -/

def leading (base : Nat) : Nat → Nat → List Char → Nat × Nat × List Char
  | 0, n, cs => (n, 0, cs)
  | _, n, [] => (n, 0, [])
  | limit + 1, n, c :: cs =>
    match Text.Hex.value c with
    | some d =>
      if d < base then
        let (n, count, rest) := leading base limit (base * n + d) cs
        (n, count + 1, rest)
      else (n, 0, c :: cs)
    | none => (n, 0, c :: cs)

def octet (n : Nat) : Char := Char.ofNat (n % 256)

def letterEscape : Char → Option Char
  | 'a' => some '\x07'
  | 'b' => some '\x08'
  | 'e' => some '\x1b'
  | 'f' => some '\x0c'
  | 'n' => some '\n'
  | 'r' => some '\r'
  | 't' => some '\t'
  | 'v' => some '\x0b'
  | '\\' => some '\\'
  | _ => none

/-- The escape that a text begins with, after the backslash: the characters it stands for, and the
rest. One that means nothing stands for itself. -/
def escape (e : Escapes) (cs : List Char) : List Char × List Char :=
  match cs with
  | [] => (['\\'], [])
  | c :: rest =>
    match letterEscape c with
    | some found => ([found], rest)
    | none =>
      match leading 8 3 0 cs with
      | (n, _ + 1, rest) => ([octet n], rest)
      | _ =>
        if e.hex && c = 'x' then
          match leading 16 2 0 rest with
          | (n, _ + 1, rest) => ([octet n], rest)
          | _ => (['\\'], cs)
        else if e.quote && c = '"' then (['"'], rest)
        else (['\\'], cs)

/-- A text in which escapes are carried out, and whether an escape ended all output. A number in
base eight can have four digits if the first one is zero. -/
def unescape (e : Escapes) : Nat → List Char → List Char × Bool
  | 0, _ => ([], false)
  | _, [] => ([], false)
  | fuel + 1, c :: rest =>
    if c = '\\' then
      match rest with
      | 'c' :: _ => ([], true)
      | '0' :: more =>
        let (n, _, more) := leading 8 3 0 more
        let (text, ended) := unescape e fuel more
        (octet n :: text, ended)
      | _ =>
        let (found, more) := escape e rest
        let (text, ended) := unescape e fuel more
        (found ++ text, ended)
    else
      let (text, ended) := unescape e fuel rest
      (c :: text, ended)

/-! ## Directives -/

structure Options where
  left : Bool := false
  zero : Bool := false
  deriving DecidableEq, Repr

structure Directive where
  options : Options := {}
  width : Nat := 0
  precision : Option Nat := none
  deriving DecidableEq, Repr

def readOptions : Options → List Char → Options × List Char
  | o, '-' :: rest => readOptions { o with left := true } rest
  | o, '0' :: rest => readOptions { o with zero := true } rest
  | o, cs => (o, cs)

def pad (d : Directive) (cs : List Char) : List Char :=
  let fill := List.replicate (d.width - cs.length) ' '
  if d.options.left then cs ++ fill else fill ++ cs

/-- Fills a number up to the width, with zeros after its sign if it is to be so. -/
def padNumber (d : Directive) (zeros : Bool) (lead digits : List Char) : List Char :=
  if zeros && d.options.zero && !d.options.left then
    lead ++ List.replicate (d.width - lead.length - digits.length) '0' ++ digits
  else pad d (lead ++ digits)

def digitsOf (base : Nat) (precision : Option Nat) (n : Nat) : List Char :=
  let digits := if n = 0 ∧ precision = some 0 then [] else Nat.toDigits base n
  List.replicate (precision.getD 1 - digits.length) '0' ++ digits

def signed (d : Directive) (n : Int) : List Char :=
  padNumber d d.precision.isNone (if n < 0 then ['-'] else []) (digitsOf 10 d.precision n.natAbs)

def unsigned (d : Directive) (base : Nat) (upper : Bool) (n : Nat) : List Char :=
  let digits := digitsOf base d.precision n
  let digits := if upper then digits.map Char.toUpper else digits
  padNumber d d.precision.isNone [] digits

/-! ## Numbers with a point -/

/-- The number at the front of a text in base ten: its digits, a power of ten, how many digits there
are, and the rest. -/
def readDecimal (cs : List Char) : Nat × Int × Nat × List Char :=
  let (whole, count, rest) := leading 10 cs.length 0 cs
  let (value, places, rest) := match rest with
    | '.' :: more =>
      let (value, places, left) := leading 10 more.length whole more
      if count + places = 0 then (whole, 0, rest) else (value, places, left)
    | _ => (whole, 0, rest)
  let (power, rest) := match rest with
    | mark :: more =>
      if mark.toLower = 'e' then
        let (down, more) := match more with
          | '-' :: more => (true, more)
          | '+' :: more => (false, more)
          | _ => (false, more)
        match leading 10 4 0 more with
        | (n, _ + 1, left) => (if down then -(n : Int) else (n : Int), left)
        | _ => (0, rest)
      else (0, rest)
    | [] => (0, rest)
  (value, power - places, count + places, rest)

/-- The number at the front of a text; it can be a whole number in base sixteen. -/
def readPointed (cs : List Char) : Nat × Int × Nat × List Char :=
  let hex := match cs with
    | '0' :: x :: rest => if x = 'x' || x = 'X' then some (leading 16 rest.length 0 rest) else none
    | _ => none
  match hex with
  | some (n, count + 1, rest) => (n, 0, count + 1, rest)
  | _ => readDecimal cs

/-! ## Arguments -/

/-- An argument as a whole number, and whether it was one that fits between two bounds. A quote
stands for the number of the character after it. -/
def wholeArgument (low high : Int) (cs : List Char) : Int × Bool :=
  match cs with
  | [] => (0, true)
  | '\'' :: rest | '"' :: rest => (((rest.head?.map Char.toNat).getD 0 : Nat), true)
  | _ =>
    let cs := cs.dropWhile fun c => c = ' ' || ('\t' ≤ c && c ≤ '\r')
    let (negative, digits) := match cs with
      | '-' :: rest => (true, rest)
      | '+' :: rest => (false, rest)
      | _ => (false, cs)
    let (n, count, rest) := match digits with
      | '0' :: x :: rest =>
        if x = 'x' || x = 'X' then
          match leading 16 rest.length 0 rest with
          | (n, count + 1, left) => (n, count + 1, left)
          | _ => (0, 1, x :: rest)
        else leading 8 digits.length 0 digits
      | '0' :: rest => (0, 1, rest)
      | _ => leading 10 digits.length 0 digits
    let n : Int := if negative then -n else n
    if count = 0 then (0, false)
    else if n < low then (low, false)
    else if high < n then (high, false)
    else (n, rest.isEmpty)

def least : Int := -9223372036854775808

def largest : Int := 9223372036854775807

def largestUnsigned : Int := 18446744073709551615

structure Printed where
  text : List Char := []
  arguments : List (List Char) := []
  failed : Bool := false
  /-- The status, once printing has come to an end before its time. -/
  ended : Option Nat := none
  deriving DecidableEq, Repr

namespace Printed

def add (p : Printed) (cs : List Char) : Printed := { p with text := p.text ++ cs }

def next (p : Printed) : List Char × Printed :=
  (p.arguments.headD [], { p with arguments := p.arguments.tail })

def addChecked (p : Printed) (cs : List Char) (ok : Bool) : Printed :=
  let p := p.add cs
  if ok then p else { p with failed := true }

end Printed

def readSize (p : Printed) : List Char → Option Int × List Char × Printed
  | '*' :: rest =>
    let (argument, p) := p.next
    let (n, ok) := wholeArgument least largest argument
    (some n, rest, p.addChecked [] ok)
  | cs =>
    match leading 10 cs.length 0 cs with
    | (n, _ + 1, rest) => (some n, rest, p)
    | _ => (none, cs, p)

def direct (manner : Manner) (p : Printed) (d : Directive) (letter : Char) : Printed :=
  let cut (cs : List Char) : List Char := match d.precision with
    | some n => cs.take n
    | none => cs
  let bits (n : Int) : Nat := (n % 18446744073709551616).toNat
  let (argument, taken) := p.next
  match letter with
  | 's' => taken.add (pad d (cut argument))
  | 'c' => taken.add (pad d [argument.headD (Char.ofNat 0)])
  | 'b' =>
    let (text, ended) := unescape manner.escapes (argument.length + 1) argument
    let shown := taken.add (pad d (cut text))
    if ended then { shown with ended := some (if shown.failed then 1 else 0) } else shown
  | 'd' | 'i' =>
    let (n, ok) := wholeArgument least largest argument
    taken.addChecked (signed d n) ok
  | 'u' | 'o' | 'x' | 'X' =>
    let (n, ok) := wholeArgument (-largestUnsigned) largestUnsigned argument
    let (base, upper) := if letter = 'u' then (10, false) else if letter = 'o' then (8, false)
      else (16, letter = 'X')
    taken.addChecked (unsigned d base upper (bits n)) ok
  | _ => { p with ended := some manner.refusal }

def once (manner : Manner) : Nat → Printed → List Char → Printed
  | 0, p, _ => p
  | _, p, [] => p
  | fuel + 1, p, c :: rest =>
    if p.ended.isSome then p
    else if c = '\\' then
      if manner.stops && rest.head? = some 'c' then
        { p with ended := some (if p.failed then 1 else 0) }
      else
        let (text, rest) := escape manner.escapes rest
        once manner fuel (p.add text) rest
    else if c = '%' then
      match rest with
      | '%' :: rest => once manner fuel (p.add ['%']) rest
      | _ =>
        let (options, rest) := readOptions {} rest
        let (width, rest, p) := readSize p rest
        let (precision, rest, p) : Option Int × List Char × Printed := match rest with
          | '.' :: rest =>
            let (precision, rest, p) := readSize p rest
            (some (precision.getD 0), rest, p)
          | _ => (none, rest, p)
        let width := width.getD 0
        let options := if width < 0 then { options with left := true } else options
        let precision := precision.bind fun n => if n < 0 then none else some n.toNat
        match rest with
        | [] => { p with ended := some manner.refusal }
        | letter :: rest =>
          let d : Directive := { options, width := width.natAbs, precision }
          once manner fuel (direct manner p d letter) rest
    else once manner fuel (p.add [c]) rest

def again (manner : Manner) (format : List Char) : Nat → Printed → Printed
  | 0, p => p
  | fuel + 1, p =>
    let after := once manner (format.length + 1) p format
    if after.ended.isSome || after.arguments.isEmpty ||
        after.arguments.length = p.arguments.length then
      after
    else again manner format fuel after

def print (manner : Manner) (format : List Char) (arguments : List (List Char)) : List Char × Nat :=
  let p := again manner format (arguments.length + 1) { arguments }
  (p.text, p.ended.getD (if p.failed then 1 else 0))

end LanguageClient.Machine.Format
