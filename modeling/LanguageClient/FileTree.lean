/-!
# Paths, and what they lead to

A path is followed from the root or from a directory, one part at a time. An empty part and a point
stay where they are, two points go up, and any other part goes to the entry of that name. Every part
has to be followed from a directory: a path that runs through a file leads nowhere, and differs from
one that runs into nothing, because the two failures are told apart.
-/

namespace LanguageClient

namespace Path

def parts (path : String) : List String :=
  (path.toList.splitOn '/').map String.ofList

def isAbsolute (path : String) : Bool := path.toList.head? == some '/'

/-- A path as seen from a directory; from the empty path it is itself. -/
def join (directory path : String) : String :=
  if isAbsolute path || directory.isEmpty then path
  else if directory.toList.getLast? == some '/' then directory ++ path
  else directory ++ "/" ++ path

/-- The directory that a file without detours in its path lies in. -/
def parent (canonical : String) : String :=
  match (parts canonical).dropLast with
  | [] | [""] => "/"
  | parts => String.intercalate "/" parts

/-- What follows the last point of a file's name, unless the name begins with it. -/
def extension? (path : String) : Option String :=
  match (parts path).getLast? with
  | none => none
  | some name =>
    match name.toList.reverse.span (· != '.') with
    | (ending, '.' :: _ :: _) => some (String.ofList ending.reverse)
    | _ => none

/-- Puts together the path without detours that leads to some parts, the last one first. -/
def ofReversed : List String → String
  | [] => "/"
  | parts => parts.foldl (fun path part => "/" ++ part ++ path) ""

def reversed (canonical : String) : List String := ((parts canonical).filter (· != "")).reverse

def directoriesTo (path : String) : List String :=
  let way := (parts path).dropLast
  (List.range way.length).map fun n => "/" ++ String.intercalate "/" ((way.take (n + 1)).drop 1)

def maxPart : Nat := 255

def maxLength : Nat := 4095

end Path

inductive Place where
  /-- To a directory; `canonical` is its path without detours. -/
  | directory (canonical : String)
  | file (canonical : String)
  | missing
  | blocked
  | tooLong
  deriving DecidableEq, Repr

/-- The directories and the files of a machine, by their paths without detours. -/
structure FileTree where
  directories : List String
  files : List String
  /-- The entries that lead elsewhere, and where they lead. -/
  links : List (String × String) := []
  deriving Repr

namespace FileTree

def entryAt (t : FileTree) (canonical : String) : Place :=
  let canonical := (t.links.lookup canonical).getD canonical
  if t.directories.contains canonical then .directory canonical
  else if t.files.contains canonical then .file canonical
  else .missing

def follow (t : FileTree) (here : Place) (part : String) : Place :=
  match here with
  | .directory canonical =>
    if part = "" ∨ part = "." then here
    else
      let way := Path.reversed canonical
      if part = ".." then .directory (Path.ofReversed way.tail)
      else if Path.maxPart < part.utf8ByteSize then .tooLong
      else t.entryAt (Path.ofReversed (part :: way))
  | .file _ => .blocked
  | _ => here

def find (t : FileTree) (directory path : String) : Place :=
  if path.isEmpty then .missing
  else if Path.maxLength < path.utf8ByteSize then .tooLong
  else
    (Path.parts path).foldl t.follow (.directory (if Path.isAbsolute path then "/" else directory))

end FileTree

end LanguageClient
