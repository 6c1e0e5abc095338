import LanguageClient.Settings.Basic

/-!
# How the server is reached
-/

namespace LanguageClient

inductive Transport where
  | stdio (command : String) (args : List String)
  | socket (host : String) (port : UInt16)
  deriving DecidableEq, Repr

namespace Transport

def ofSettings (s : Settings) : Transport :=
  match s.transport with
  | .stdio => .stdio s.serverCommand s.serverArgs
  | .socket => .socket s.host s.port

def kind : Transport → TransportKind
  | .stdio .. => .stdio
  | .socket .. => .socket

def endpointText (host : String) (port : UInt16) : String :=
  host ++ ":" ++ Settings.portText port

def text : Transport → String
  | .stdio command args => args.foldl (fun line arg => line ++ " " ++ arg) ("stdio:" ++ command)
  | .socket host port => "tcp://" ++ endpointText host port

end Transport

end LanguageClient
