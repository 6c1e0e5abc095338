import LanguageClient.Text.Hex

/-!
# Expressions of a shell

Expressions are worked out in words of 64 bits with a sign, which wrap around. They consist of
numbers in three bases, variables, and operators; one that assigns changes a variable.
-/

namespace LanguageClient.Machine.Arithmetic

inductive Operator where
  | times | over | modulo | plus | minus
  | less | lessOrEqual | greater | greaterOrEqual | equal | different
  deriving DecidableEq, Repr

inductive Sign where
  | negative | positive | isZero
  deriving DecidableEq, Repr

inductive Expression where
  | number (n : Int)
  | value (name : List Char)
  | signed (sign : Sign) (side : Expression)
  | joined (operator : Operator) (left right : Expression)
  /-- A variable is set, to a value or to what an operator makes of its value and another one. -/
  | assignment (name : List Char) (operator : Option Operator) (side : Expression)
  deriving Repr

/-! ## Reading -/

inductive Token where
  | number (n : Int)
  | name (cs : List Char)
  | mark (text : String)
  deriving DecidableEq, Repr

def marks : List String :=
  ["<=", ">=", "==", "!=", "+=", "-=", "*=", "/=", "%=", "+", "-", "*", "/", "%", "<",
    ">", "=", "!", "(", ")"]

def wrap (n : Int) : Int := Int.bmod n 18446744073709551616

def maxNumber : Nat := 9223372036854775807

/-- A number: in base sixteen or eight if it begins that way. One that is too large is the largest.
-/
def readNumber (cs : List Char) : Option Int :=
  let found := match cs with
    | '0' :: 'x' :: d :: rest | '0' :: 'X' :: d :: rest => Text.Hex.numberIn 16 (d :: rest)
    | '0' :: rest => Text.Hex.numberIn 8 rest
    | _ => if cs.isEmpty then none else Text.Hex.numberIn 10 cs
  found.map fun n => ((min n maxNumber : Nat) : Int)

/-- A number with a sign and blanks around it, as the value of a variable. -/
def readValue (cs : List Char) : Option Int :=
  let isBlank (c : Char) : Bool := c = ' ' || ('\t' ≤ c && c ≤ '\r')
  let cs := cs.dropWhile isBlank
  let cs := (cs.reverse.dropWhile isBlank).reverse
  match cs with
  | [] => some 0
  | '-' :: rest => (readNumber rest).map fun n => -n
  | '+' :: rest => readNumber rest
  | _ => readNumber cs

def isWordChar (c : Char) : Bool := c.isAlphanum || c = '_'

def tokens : Nat → List Char → Option (List Token)
  | 0, _ => none
  | _, [] => some []
  | fuel + 1, c :: rest =>
    if c = ' ' || c = '\t' || c = '\n' then tokens fuel rest
    else if isWordChar c then do
      let (word, left) := (c :: rest).span isWordChar
      let token ← if c.isDigit then (readNumber word).map Token.number else some (.name word)
      let more ← tokens fuel left
      some (token :: more)
    else do
      let mark ← marks.find? fun m => m.toList.isPrefixOf (c :: rest)
      let more ← tokens fuel ((c :: rest).drop mark.length)
      some (.mark mark :: more)

def operators : List (String × Nat × Operator) := [
  ("*", 10, .times), ("/", 10, .over), ("%", 10, .modulo),
  ("+", 9, .plus), ("-", 9, .minus),
  ("<", 7, .less), ("<=", 7, .lessOrEqual), (">", 7, .greater), (">=", 7, .greaterOrEqual),
  ("==", 6, .equal), ("!=", 6, .different)]

def assigning : List (String × Option Operator) := [
  ("=", none), ("*=", some .times), ("/=", some .over), ("%=", some .modulo), ("+=", some .plus),
  ("-=", some .minus)]

def signs : List (String × Sign) :=
  [("-", .negative), ("+", .positive), ("!", .isZero)]

mutual

def primary : Nat → List Token → Option (Expression × List Token)
  | 0, _ => none
  | fuel + 1, ts =>
    match ts with
    | .number n :: rest => some (.number n, rest)
    | .name cs :: rest => some (.value cs, rest)
    | .mark "(" :: rest => do
      let (e, rest) ← whole fuel rest
      match rest with
      | .mark ")" :: rest => some (e, rest)
      | _ => none
    | .mark m :: rest => do
      let sign ← signs.lookup m
      let (e, rest) ← primary fuel rest
      some (.signed sign e, rest)
    | [] => none

def climb : Nat → Nat → Expression → List Token → Option (Expression × List Token)
  | 0, _, _, _ => none
  | fuel + 1, bound, left, ts =>
    match ts with
    | .mark m :: rest =>
      match operators.lookup m with
      | some (tightness, operator) =>
        if tightness < bound then some (left, ts)
        else do
          let (first, rest) ← primary fuel rest
          let (right, rest) ← climb fuel (tightness + 1) first rest
          climb fuel bound (.joined operator left right) rest
      | none => some (left, ts)
    | _ => some (left, ts)

def whole : Nat → List Token → Option (Expression × List Token)
  | 0, _ => none
  | fuel + 1, ts =>
    let assigned := match ts with
      | .name cs :: .mark m :: rest => (assigning.lookup m).map fun operator => (cs, operator, rest)
      | _ => none
    match assigned with
    | some (name, operator, rest) => do
      let (side, rest) ← whole fuel rest
      some (.assignment name operator side, rest)
    | none => do
      let (first, rest) ← primary fuel ts
      climb fuel 0 first rest

end

def read (cs : List Char) : Option Expression := do
  let ts ← tokens (cs.length + 1) cs
  match ts with
  | [] => some (.number 0)
  | _ =>
    match ← whole (8 * ts.length + 8) ts with
    | (e, []) => some e
    | _ => none

/-! ## Working out -/

def truth (b : Bool) : Int := if b then 1 else 0

def Operator.apply (a b : Int) : Operator → Option Int
  | .times => some (wrap (a * b))
  | .over => if b = 0 then none else some (wrap (a.tdiv b))
  | .modulo => if b = 0 then none else some (wrap (a.tmod b))
  | .plus => some (wrap (a + b))
  | .minus => some (wrap (a - b))
  | .less => some (truth (decide (a < b)))
  | .lessOrEqual => some (truth (decide (a ≤ b)))
  | .greater => some (truth (decide (b < a)))
  | .greaterOrEqual => some (truth (decide (b ≤ a)))
  | .equal => some (truth (a == b))
  | .different => some (truth (a != b))

def Sign.apply (a : Int) : Sign → Int
  | .negative => wrap (-a)
  | .positive => a
  | .isZero => truth (a == 0)

/-- The value of an expression, and the variables after it; none if a variable holds no number or if
something is divided by zero. -/
def evaluate {σ : Type} (get : σ → List Char → Option Int) (set : σ → List Char → Int → σ) :
    σ → Expression → Option (Int × σ)
  | s, .number n => some (n, s)
  | s, .value name => (get s name).map (·, s)
  | s, .signed sign e => (evaluate get set s e).map fun (a, s) => (sign.apply a, s)
  | s, .joined operator left right => do
    let (a, s) ← evaluate get set s left
    let (b, s) ← evaluate get set s right
    let c ← operator.apply a b
    some (c, s)
  | s, .assignment name operator side => do
    let (b, s) ← evaluate get set s side
    let c ← match operator with
      | none => some b
      | some o => (get s name).bind fun a => o.apply a b
    some (c, set s name c)

def decimal (n : Int) : List Char :=
  if n < 0 then '-' :: Nat.toDigits 10 n.natAbs else Nat.toDigits 10 n.natAbs

end LanguageClient.Machine.Arithmetic
