import LanguageClient.Text.Ascii

/-!
# The three closed choices among the settings

How the server comes to run, which byte stream carries the protocol, and how log lines look. Each
choice is a two-valued type with one lower-case name per value. Names written by people on a command
line are accepted in any ASCII case (`ofName?`); names inside documents must be exact, which is why
`names` is a table and not a function.
-/

namespace LanguageClient

inductive LaunchMode where
  /-- The client launches the server and ends it. -/
  | managed
  /-- The client joins a server that runs on its own. -/
  | attached
  deriving DecidableEq, Repr

inductive TransportKind where
  | stdio
  | socket
  deriving DecidableEq, Repr

inductive LogFormat where
  | json
  | compact
  deriving DecidableEq, Repr

/-- The first entry of a table whose name agrees up to ASCII case. -/
def namedIgnoringCase {α : Type} (names : List (String × α)) (text : String) : Option α :=
  (names.find? fun n => Text.eqIgnoringCase n.1 text).map (·.2)

namespace LaunchMode

def name : LaunchMode → String
  | .managed => "managed"
  | .attached => "attached"

def names : List (String × LaunchMode) := [("managed", .managed), ("attached", .attached)]

def ofName? (text : String) : Option LaunchMode := namedIgnoringCase names text

def spawnsServer : LaunchMode → Bool
  | .managed => true
  | .attached => false

end LaunchMode

namespace TransportKind

def name : TransportKind → String
  | .stdio => "stdio"
  | .socket => "socket"

def names : List (String × TransportKind) := [("stdio", .stdio), ("socket", .socket)]

def ofName? (text : String) : Option TransportKind := namedIgnoringCase names text

end TransportKind

namespace LogFormat

def name : LogFormat → String
  | .json => "json"
  | .compact => "compact"

def names : List (String × LogFormat) := [("json", .json), ("compact", .compact)]

def ofName? (text : String) : Option LogFormat := namedIgnoringCase names text

end LogFormat

end LanguageClient
