import LanguageClient.Json.Basic
import LanguageClient.Text.Ascii
import LanguageClient.Uri

/-!
# Which documents a session is about
-/

namespace LanguageClient

/-- The documents of one URI scheme and one language. -/
structure DocumentFilter where
  /-- The scheme, compared without regard to ASCII case. -/
  scheme : String := "file"
  language : String := "fireball"
  deriving DecidableEq, Repr

namespace DocumentFilter

def default : DocumentFilter := {}

def matchesScheme (f : DocumentFilter) (uri : Uri) : Bool :=
  uri.scheme.any fun s => Text.eqIgnoringCase s f.scheme

def matchesDocument (f : DocumentFilter) (uri : Uri) (languageId : String) : Bool :=
  f.matchesScheme uri && languageId == f.language

def text (f : DocumentFilter) : String := f.scheme ++ ":" ++ f.language

def toJson (f : DocumentFilter) : Json :=
  .obj [("language", .str f.language), ("scheme", .str f.scheme)]

end DocumentFilter

end LanguageClient
