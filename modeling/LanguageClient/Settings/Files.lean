import LanguageClient.FileTree
import LanguageClient.Json.Overlay
import LanguageClient.Text.Ascii
import LanguageClient.Toml.Parser

/-!
# Configuration files

A configuration file can extend another one, which it names relative to itself: what the other file
says lies below what the file itself says. A chain of files that comes back to one of its members is
refused.

The file system is not part of this module. It is given as a function that says what stands at a
path, in any monad: the program looks at the real one, everything else at a `Disk` in memory.
-/

namespace LanguageClient

inductive FileEntry where
  | missing
  | directory (canonical : String)
  | file (canonical text : String)
  /-- A file whose text cannot be had. -/
  | unreadable (canonical : String)
  /-- The path cannot be followed to its end. -/
  | unreachable
  deriving DecidableEq, Repr

inductive FileFault where
  | unusable (path : String)
  | cyclic (chain : List String)
  deriving DecidableEq, Repr

def FileFault.cycleMessage (chain : List String) : String :=
  "cyclic extends detected: " ++ String.intercalate " -> " chain

def FileFault.message : FileFault → String
  | .unusable path => "Configuration file error in '" ++ path ++ "'"
  | .cyclic chain => cycleMessage chain

namespace Files

/-- The formats that are recognised by the ending of a file's name and refused. -/
def refusedExtensions : List String := ["json", "json5", "yaml", "yml"]

/-! ## Loading -/

inductive FileDocument where
  /-- A document in the older edition of the format. -/
  | document (v : Json)
  /-- Only the newer edition takes the file; what the older one has to say about it. -/
  | tooNew (complaint : String)
  deriving Repr

/-- A file lies over the one that it extends. If either is too new there is nothing to be laid. -/
def FileDocument.over (lower : FileDocument) (upper : Json) : FileDocument :=
  match lower with
  | .document v => .document (upper.overlay v)
  | .tooNew complaint => .tooNew complaint

/-- Reads the text of a configuration file: it must be right by the newer edition, and what counts
is what it says by the older one. -/
def documentOf (path text : String) : Option FileDocument :=
  let refused := ((Path.extension? path).map fun ending =>
    refusedExtensions.contains (Text.lowered ending)).getD false
  match refused, Toml.parse .newer text.toList with
  | false, .ok _ =>
    match Toml.parse .older text.toList with
    | .ok v => some (.document v)
    | .error fault => some (.tooNew (fault.show text.toList))
  | _, _ => none

def extendsMember : String := "extends"

def maxChain : Nat := 4096

/-- Loads the document of a file that has been found; `chain` are the files that extend it. -/
def loadFound {m : Type → Type} [Monad m] (find : String → m FileEntry) :
    Nat → List String → String → String → m (Except FileFault FileDocument)
  | 0, _, path, _ => return .error (.unusable path)
  | fuel + 1, chain, path, text => do
    if chain.contains path then return .error (.cyclic (chain ++ [path]))
    match documentOf path text with
    | none => return .error (.unusable path)
    | some (.tooNew complaint) => return .ok (.tooNew complaint)
    | some (.document v) =>
      match v.get? extendsMember with
      | none => return .ok (.document v)
      | some (.str base) =>
        if base.isEmpty then return .error (.unusable path)
        let target := Path.join (Path.parent path) base
        match ← find target with
        | .missing | .unreachable => return .error (.unusable target)
        | .directory canonical => return .error (.unusable canonical)
        | .unreadable canonical => return .error (.unusable canonical)
        | .file canonical text =>
          match ← loadFound find fuel (chain ++ [path]) canonical text with
          | .error fault => return .error fault
          | .ok lower => return .ok (lower.over v)
      | some _ => return .error (.unusable path)

def load {m : Type → Type} [Monad m] (find : String → m FileEntry) (path : String) :
    m (Except FileFault (Option FileDocument)) := do
  match ← find path with
  | .missing => return .ok none
  | .unreachable => return .error (.unusable path)
  | .directory canonical => return .error (.unusable canonical)
  | .unreadable canonical => return .error (.unusable canonical)
  | .file canonical text =>
    match ← loadFound find maxChain [] canonical text with
    | .error fault => return .error fault
    | .ok document => return .ok (some document)

end Files

/-! ## A file system in memory -/

structure Disk where
  workingDirectory : String
  directories : List String
  files : List (String × String)
  deriving Repr

namespace Disk

def ofFiles (workingDirectory : String) (more : List String) (files : List (String × String)) :
    Disk :=
  { workingDirectory
    directories := ("/" :: more ++ files.flatMap fun f => Path.directoriesTo f.1).eraseDups
    files }

def tree (d : Disk) : FileTree := { directories := d.directories, files := d.files.map (·.1) }

def find (d : Disk) (path : String) : FileEntry :=
  match d.tree.find d.workingDirectory path with
  | .directory canonical => .directory canonical
  | .file canonical =>
    match d.files.lookup canonical with
    | some text => .file canonical text
    | none => .unreadable canonical
  | .missing => .missing
  | .blocked | .tooLong => .unreachable

end Disk

end LanguageClient
