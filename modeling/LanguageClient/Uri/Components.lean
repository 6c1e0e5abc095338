import LanguageClient.Text.Hex
import LanguageClient.Text.Numeral
import LanguageClient.Text.Structured
import LanguageClient.Uri

/-!
# The components of a URI reference

A reference that has been read is cut into its components at its delimiters: nothing is decoded, and
a component that is missing differs from one that is empty. The components are what a diagnostic
dump of a reference shows; a host that is an address is shown once more in its canonical form.
-/

namespace LanguageClient

structure UriAuthority where
  userInfo : Option String
  host : String
  port : Option String
  deriving DecidableEq, Repr

structure UriComponents where
  scheme : Option String
  authority : Option UriAuthority
  path : String
  query : Option String
  fragment : Option String
  deriving DecidableEq, Repr

/-! ## Cutting -/

def Uri.cut (mark : Char) (cs : List Char) : List Char × Option (List Char) :=
  match cs.span (· != mark) with
  | (front, []) => (front, none)
  | (front, _ :: back) => (front, some back)

/-- Cuts an authority. A colon inside brackets belongs to the host. -/
def UriAuthority.ofText (cs : List Char) : UriAuthority :=
  let (userInfo, place) := match Uri.cut '@' cs with
    | (front, some back) => (some (String.ofList front), back)
    | (place, none) => (none, place)
  let (bracketed, rest) := if place.head? = some '[' then place.span (· != ']') else ([], place)
  let (plain, port) := Uri.cut ':' rest
  { userInfo, host := String.ofList (bracketed ++ plain), port := port.map String.ofList }

def Uri.components (u : Uri) : UriComponents :=
  let cs := match u.scheme with
    | some s => u.text.toList.drop (s.length + 1)
    | none => u.text.toList
  let (cs, fragment) := Uri.cut '#' cs
  let (cs, query) := Uri.cut '?' cs
  let (authority, path) := match cs with
    | '/' :: '/' :: rest =>
      let (place, path) := rest.span (· != '/')
      (some (UriAuthority.ofText place), path)
    | path => (none, path)
  { scheme := u.scheme
    authority
    path := String.ofList path
    query := query.map String.ofList
    fragment := fragment.map String.ofList }

/-! ## Addresses -/

/-- The groups that pieces of an address stand for; a piece with points stands for two. -/
def Uri.groups (pieces : List (List UInt8)) : List Nat :=
  pieces.flatMap fun piece =>
    let text := piece.map fun b => Char.ofNat b.toNat
    if piece.contains 0x2E then
      match (Uri.splitAt 0x2E piece).map fun p =>
          (Text.digitsValue 0 (p.map fun b => Char.ofNat b.toNat)).getD 0 with
      | [a, b, c, d] => [256 * a + b, 256 * c + d]
      | _ => []
    else [(Text.Hex.number text).getD 0]

def Uri.ipv6Groups (bytes : List UInt8) : List Nat :=
  match Uri.splitAtGap bytes with
  | none => groups (groupPieces bytes)
  | some (front, back) =>
    let front := groups (groupPieces front)
    let back := groups (groupPieces back)
    front ++ List.replicate (8 - front.length - back.length) 0 ++ back

/-- The longest run of zeros among groups, the first of several: where it begins, and its length. -/
def Uri.longestGap (groups : List Nat) : Nat × Nat :=
  (List.range groups.length).foldl (fun best start =>
    let length := ((groups.drop start).takeWhile (· = 0)).length
    if best.2 < length then (start, length) else best) (0, 0)

/-- An IPv6 address in its canonical form: the longest run of at least two zeros is left out, and an
IPv4 address inside it is written as one. -/
def Uri.ipv6Text (groups : List Nat) : String :=
  let hex (gs : List Nat) : String :=
    ":".intercalate (gs.map fun g => String.ofList (Nat.toDigits 16 g))
  match groups with
  | [0, 0, 0, 0, 0, 65535, a, b] =>
    "::ffff:" ++ ".".intercalate ([a / 256, a % 256, b / 256, b % 256].map toString)
  | _ =>
    let (start, length) := longestGap groups
    if length < 2 then hex groups
    else hex (groups.take start) ++ "::" ++ hex (groups.drop (start + length))

/-! ## Dumps -/

def Uri.dumpOption : Option String → String
  | some text => "Some(" ++ text ++ ")"
  | none => "None"

def Uri.dumpHost (host : String) : String :=
  let bytes := Text.Utf8.ofString host
  if bytes.head? == some 0x5B then
    Text.recordText "Ipv6" [("addr", ipv6Text (ipv6Groups ((bytes.drop 1).dropLast)))]
  else if isIpv4 bytes then "Ipv4(" ++ host ++ ")"
  else "RegName(" ++ Text.quoted host ++ ")"

def UriAuthority.dump (a : UriAuthority) : String :=
  Text.recordText "Authority" [
    ("userinfo", Uri.dumpOption (a.userInfo.map Text.quoted)),
    ("host", Text.recordText "Host" [("text", Text.quoted a.host), ("data", Uri.dumpHost a.host)]),
    ("port", Uri.dumpOption (a.port.map Text.quoted))]

def Uri.dump (u : Uri) : String :=
  let c := u.components
  "Uri(" ++ Text.recordText "Uri" [
    ("scheme", dumpOption (c.scheme.map Text.quoted)),
    ("authority", dumpOption (c.authority.map UriAuthority.dump)),
    ("path", Text.quoted c.path),
    ("query", dumpOption (c.query.map Text.quoted)),
    ("fragment", dumpOption (c.fragment.map Text.quoted))] ++ ")"

end LanguageClient
