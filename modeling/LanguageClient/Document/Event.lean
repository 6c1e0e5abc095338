import LanguageClient.Document.Filter

/-!
# What happens to documents, and who hears of it

A session hears of a document only if the document belongs to it. That is decided when the document
is opened; changes and closing carry nothing but the URI, so they are forwarded exactly while the
URI is among the open documents. The set of open documents is updated when an event is *offered*,
before anything is written to the server.
-/

namespace LanguageClient

structure Position where
  line : Nat
  character : Nat
  deriving DecidableEq, Repr

structure DocumentRange where
  start : Position
  stop : Position
  deriving DecidableEq, Repr

structure ContentChange where
  /-- The stretch that is replaced; the whole document if there is none. -/
  range : Option DocumentRange
  rangeLength : Option Nat
  text : String
  deriving DecidableEq, Repr

inductive DocumentEvent where
  | didOpen (uri : Uri) (languageId : String) (version : Int) (text : String)
  | didChange (uri : Uri) (version : Int) (changes : List ContentChange)
  | didClose (uri : Uri)
  deriving DecidableEq, Repr

inductive Routed where
  | forwarded
  | ignored
  deriving DecidableEq, Repr

/-! ## What the server is told -/

def Position.toJson (p : Position) : Json :=
  .obj [("character", Json.ofNat p.character), ("line", Json.ofNat p.line)]

def DocumentRange.toJson (r : DocumentRange) : Json :=
  .obj [("end", r.stop.toJson), ("start", r.start.toJson)]

def ContentChange.toJson (c : ContentChange) : Json :=
  .obj ((c.range.map fun r => ("range", r.toJson)).toList ++
    (c.rangeLength.map fun n => ("rangeLength", Json.ofNat n)).toList ++ [("text", .str c.text)])

namespace DocumentEvent

def method : DocumentEvent → String
  | .didOpen .. => "textDocument/didOpen"
  | .didChange .. => "textDocument/didChange"
  | .didClose .. => "textDocument/didClose"

def params : DocumentEvent → Json
  | .didOpen uri languageId version text =>
    .obj [("textDocument", .obj [
      ("languageId", .str languageId), ("text", .str text), ("uri", .str uri.text),
      ("version", Json.ofInt version)])]
  | .didChange uri version changes =>
    .obj [("contentChanges", .arr (changes.map ContentChange.toJson)),
      ("textDocument", .obj [("uri", .str uri.text), ("version", Json.ofInt version)])]
  | .didClose uri => .obj [("textDocument", .obj [("uri", .str uri.text)])]

end DocumentEvent

/-! ## Open documents -/

/-- The documents of a session that are open, by the text of their URI. Each occurs once. -/
structure OpenDocuments where
  uris : List String := []
  deriving DecidableEq, Repr

namespace OpenDocuments

def isOpen (d : OpenDocuments) (uri : Uri) : Bool := d.uris.contains uri.text

/-- Offers an event: whether it is forwarded, and the documents that are open afterwards. -/
def offer (d : OpenDocuments) (filter : DocumentFilter) : DocumentEvent → Routed × OpenDocuments
  | .didOpen uri languageId _ _ =>
    if filter.matchesDocument uri languageId then
      (.forwarded, if d.isOpen uri then d else ⟨uri.text :: d.uris⟩)
    else (.ignored, d)
  | .didChange uri _ _ => (if d.isOpen uri then .forwarded else .ignored, d)
  | .didClose uri =>
    if d.isOpen uri then (.forwarded, ⟨d.uris.erase uri.text⟩) else (.ignored, d)

end OpenDocuments

end LanguageClient
