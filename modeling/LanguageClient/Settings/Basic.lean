import LanguageClient.Settings.Selector
import LanguageClient.Text.Blank
import LanguageClient.Text.Numeral

/-!
# The seven settings of the client

`Settings` is what every source of configuration is resolved into. Two things are derived from it
here: the arguments that the server is launched with, and whether the combination makes sense at
all. The check reports the first of its three rules that is broken, in the order in which
`validate` lists them.
-/

namespace LanguageClient

structure Settings where
  mode : LaunchMode := .managed
  transport : TransportKind := .socket
  /-- The server's command line, without the arguments the client adds. -/
  serverCommand : String := "fireball"
  host : String := "127.0.0.1"
  port : UInt16 := 2077
  logFilter : String := "info"
  logFormat : LogFormat := .compact
  deriving DecidableEq, Repr

inductive SettingsError where
  /-- A server that the client did not launch has no pipes to borrow. -/
  | attachedStdio
  | zeroPort
  | emptyCommand
  deriving DecidableEq, Repr

def SettingsError.message : SettingsError → String
  | .attachedStdio => "attached mode requires the socket transport"
  | .zeroPort => "socket transport requires a non-zero port"
  | .emptyCommand => "managed mode requires a server command"

namespace Settings

def default : Settings := {}

def serveSubcommand : String := "lsp"

def portText (port : UInt16) : String := String.ofList (Text.numeral port.toNat)

/-- The arguments that the client adds to the server's command line: the subcommand and, for the
socket transport, the port. -/
def serverArgs (s : Settings) : List String :=
  match s.transport with
  | .socket => [serveSubcommand, "-p=" ++ portText s.port]
  | .stdio => [serveSubcommand]

def validate (s : Settings) : Except SettingsError Unit :=
  if s.mode = .attached ∧ s.transport = .stdio then .error .attachedStdio
  else if s.transport = .socket ∧ s.port = 0 then .error .zeroPort
  else if s.mode.spawnsServer = true ∧ Text.trimmed s.serverCommand = "" then .error .emptyCommand
  else .ok ()

def summary (s : Settings) : String :=
  match s.transport with
  | .socket => s.mode.name ++ " via tcp://" ++ s.host ++ ":" ++ portText s.port
  | .stdio => s.mode.name ++ " via stdio"

end Settings

end LanguageClient
