import LanguageClient.Json.Basic

/-!
# The tables of a configuration file

A configuration file in TOML is a tree of tables that is written down piece by piece: a header opens
a table anywhere in the tree, a dotted key reaches into tables below the open one. What makes a file
wrong although every line of it is well formed is that a piece is written down twice. Whether a
table may be opened or reached into depends on how it came into being, so every table remembers its
`Origin`.
-/

namespace LanguageClient.Toml

/-- How a table came into being. -/
inductive Origin where
  | header
  | passing
  | dotted
  deriving DecidableEq, Repr

inductive Node where
  | value (v : Json)
  | table (origin : Origin) (entries : List (String × Node))
  /-- A list of tables, each opened by a header of its own; the last one is the one in work. -/
  | tables (elements : List (List (String × Node)))

abbrev Entries := List (String × Node)

def setEntry (key : String) (node : Node) : Entries → Entries
  | [] => [(key, node)]
  | (k, n) :: rest => if k = key then (key, node) :: rest else (k, n) :: setEntry key node rest

def splitLast {α : Type} : List α → Option (List α × α)
  | [] => none
  | [a] => some ([], a)
  | a :: rest => (splitLast rest).map fun (front, last) => (a :: front, last)

/-- Changes the table that a path leads to, as seen from a table with origin `o` and entries `es`.
Tables that are missing on the way come into being: `dotted` says whether a dotted key or a header
leads the way. A dotted key cannot lead through a table that has a header, and nothing leads through
a value. -/
def within (dotted : Bool) (f : Origin → Entries → Option Entries) :
    List String → Origin → Entries → Option Entries
  | [], o, es => f o es
  | key :: path, _, es =>
    match es.lookup key with
    | none =>
      let o := if dotted then Origin.dotted else Origin.passing
      (within dotted f path o []).map fun sub => es ++ [(key, .table o sub)]
    | some (.value _) => none
    | some (.tables elements) =>
      match splitLast elements with
      | none => none
      | some (front, last) =>
        (within dotted f path .header last).map fun last =>
          setEntry key (.tables (front ++ [last])) es
    | some (.table o sub) =>
      if dotted && o = .header then none
      else (within dotted f path o sub).map fun sub => setEntry key (.table o sub) es

/-- Adds a value under a dotted key. The key must be new, and the table it is added to must belong
to the dotted key: it is the open table itself or one that dotted keys have made. -/
def addValue (path : List String) (key : String) (v : Json) (o : Origin) (es : Entries) :
    Option Entries :=
  within true (fun o es =>
    if (o == .dotted) == path.isEmpty then none
    else match es.lookup key with
      | some _ => none
      | none => some (es ++ [(key, .value v)])) path o es

/-- Opens a table by a header. A table that headers have only led through can still be opened. -/
def openTable (path : List String) (key : String) (root : Entries) : Option Entries :=
  within false (fun _ es =>
    match es.lookup key with
    | none => some (es ++ [(key, .table .header [])])
    | some (.table .passing sub) => some (setEntry key (.table .header sub) es)
    | some _ => none) path .header root

def openElement (path : List String) (key : String) (root : Entries) : Option Entries :=
  within false (fun _ es =>
    match es.lookup key with
    | none => some (es ++ [(key, .tables [[]])])
    | some (.tables elements) => some (setEntry key (.tables (elements ++ [[]])) es)
    | some _ => none) path .header root

mutual

def Node.toJson : Node → Json
  | .value v => v
  | .table _ entries => Json.ofMembers (membersOf entries)
  | .tables elements => .arr (itemsOf elements)

def membersOf : Entries → List (String × Json)
  | [] => []
  | (k, n) :: rest => (k, n.toJson) :: membersOf rest

def itemsOf : List Entries → List Json
  | [] => []
  | es :: rest => Json.ofMembers (membersOf es) :: itemsOf rest

end

end LanguageClient.Toml
