import LanguageClient.Log.Event
import LanguageClient.Log.Pattern
import LanguageClient.Text.Numeral
import LanguageClient.Text.Utf8

/-!
# Which log events are written

A filter is a list of directives, divided by commas. A directive names a level, or the beginning of
targets, or both: events of those targets are written down to that level. Where several directives
name the beginning of a target the longest one counts. A target that is named without a level is
written completely, and a filter without any directive writes errors.

A directive can also name, in brackets, a *span* or in braces a field that events must have. Events
of this library never happen within a span, so a directive with one is only checked for its form.

Of the directives about an event exactly one counts: the one with the longest target, then the one
with more fields, then the one whose target and whose field come last in the order of texts. Of
directives that agree in all this the later one counts.
-/

namespace LanguageClient.Log

def Target.path : Target → String
  | .session => "fireball_lsp_client::session"
  | .activation => "fireball_lsp_client::activation"
  | .transport => "fireball_lsp_client::transport"
  | .supervisor => "fireball_lsp_client::supervisor"
  | .program => "fireball_lsp_client::main"

inductive Threshold where
  | off
  | error
  | warn
  | info
  | debug
  | trace
  deriving DecidableEq, Repr

namespace Threshold

def names : List (String × Threshold) := [
  ("off", .off), ("error", .error), ("warn", .warn), ("info", .info), ("debug", .debug),
  ("trace", .trace)]

def ordered : List Threshold := names.map (·.2)

def parse (cs : List Char) : Option Threshold :=
  match Text.readNumeral Text.maxWord64 cs with
  | some n => ordered[n]?
  | none => (names.find? fun n => Text.sameIgnoringCase n.1.toList cs).map (·.2)

def allows : Threshold → Level → Bool
  | .off, _ => false
  | .error, level => level == .error
  | .warn, level => level == .error || level == .warn
  | .info, level => level != .debug
  | .debug, _ => true
  | .trace, _ => true

end Threshold

structure Directive where
  /-- What the names of the targets begin with; all targets if it is missing. -/
  target : Option String
  fields : List String := []
  threshold : Threshold
  deriving DecidableEq, Repr

namespace Directive

inductive Reading where
  | directive (d : Directive)
  | spanOnly
  deriving DecidableEq, Repr

def startsTarget (c : Char) : Bool := Text.isAlphanumeric c || c = '-' || c = ':' || c = '_'

def slice (cs : List Char) (start stop : Nat) : Option (List Char) :=
  Text.Utf8.decode? (((Text.Utf8.encode cs).take stop).drop start)

/-- The level after an equals sign; nothing stands for everything. -/
def thresholdAfter : List Char → Option Threshold
  | [] => some .trace
  | cs => Threshold.parse cs

/-- What may follow brackets: nothing, or an equals sign and a level, of which the first octet in
the whole part is given. -/
def afterBrackets (part : List Char) (start : Nat) (reading : Threshold → Reading) :
    List Char → Option Reading
  | [] => some (reading .trace)
  | '=' :: _ =>
    (slice part (start + 1) (Text.Utf8.size part)).bind fun level =>
      (thresholdAfter level).map reading
  | _ => none

/-- A field in braces: its name, and the value that it must have. Whatever follows a second equals
sign does not count. -/
def readField (field : List Char) : Option (String × Option (List Char)) :=
  match field.span (· != '=') with
  | ([], []) => none
  | (name, []) => some (String.ofList name, none)
  | (name, _ :: rest) =>
    let value := rest.takeWhile (· != '=')
    if Pattern.isValue value then some (String.ofList name, some value) else none

/-- Brackets, from after the opening one, which ends at the octet `start` of what is left of the
part without the blanks around it. -/
def readBrackets (part : List Char) (target : Option String) (start : Nat) (cs : List Char) :
    Option Reading :=
  match cs.span (fun c => c != ']' && c != '\x7b') with
  | (name, ']' :: rest) =>
    afterBrackets part (start + Text.Utf8.size name + 1) (fun _ => .spanOnly) rest
  | (name, '\x7b' :: rest) =>
    match rest.span (· != '\x7d') with
    | (field, '\x7d' :: ']' :: rest) =>
      let first := start + Text.Utf8.size name + 1
      let last := first + Text.Utf8.size field
      (slice part first last).bind fun text =>
        (readField text).bind fun (field, value) =>
          let reading (threshold : Threshold) : Reading :=
            if name.isEmpty && value.isNone then .directive { target, fields := [field], threshold }
            else .spanOnly
          afterBrackets part (last + 2) reading rest
    | _ => none
  | _ => none

/-- Reads a part of a filter. Blanks around the part count only when the part is divided: the places
of the divisions are looked for without them, and the divisions are made with them. -/
def read (part : List Char) : Option Reading :=
  let scanned := Text.trim part
  match scanned with
  | [] => none
  | '[' :: rest => readBrackets part none 1 rest
  | c :: _ =>
    if startsTarget c then
      match scanned.span (fun c => c != '=' && c != '[') with
      | (front, mark :: rest) =>
        let place := Text.Utf8.size front
        (slice part 0 place).bind fun target =>
          let target := some (String.ofList target)
          if mark = '[' then readBrackets part target (place + 1) rest
          else
            (slice part (place + 1) (Text.Utf8.size part)).bind fun level =>
              (thresholdAfter level).map fun threshold => .directive { target, threshold }
      | (_, []) =>
        match Threshold.parse part with
        | some threshold => some (.directive { target := none, threshold })
        | none => some (.directive { target := some (String.ofList part), threshold := .trace })
    else none

def concernsTarget (d : Directive) (path : String) : Bool :=
  match d.target with
  | none => true
  | some front => front.toList.isPrefixOf path.toList

def concerns (d : Directive) (e : Event) : Bool :=
  d.concernsTarget e.target.path && d.fields.all e.hasField

def narrowness (d : Directive) : Nat :=
  match d.target with
  | none => 0
  | some front => front.utf8ByteSize + 1

/-- How a directive ranks against another one: of two about the same event the higher one counts. -/
def rank (a b : Directive) : Ordering :=
  (compare a.narrowness b.narrowness).then <|
    (compare a.fields.length b.fields.length).then <|
      (compare (a.target.getD "") (b.target.getD "")).then (compare a.fields b.fields)

end Directive

structure Filter where
  directives : List Directive
  deriving DecidableEq, Repr

namespace Filter

def fallback : Directive := { target := none, threshold := .error }

def parse (text : String) : Option Filter :=
  match ((text.toList.splitOn ',').filter (!·.isEmpty)).mapM Directive.read with
  | none => none
  | some [] => some ⟨[fallback]⟩
  | some readings =>
    some ⟨readings.filterMap fun
      | .directive d => some d
      | .spanOnly => none⟩

/-- The directive that counts for an event: the highest, and of several the last. -/
def directiveFor (f : Filter) (e : Event) : Option Directive :=
  (f.directives.filter (·.concerns e)).foldl (fun best d =>
    match best with
    | none => some d
    | some b => if b.rank d = .gt then some b else some d) none

def admits (f : Filter) (e : Event) : Bool :=
  match f.directiveFor e with
  | none => false
  | some d => d.threshold.allows e.level

end Filter

end LanguageClient.Log
