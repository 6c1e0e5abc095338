import LanguageClient.Activation.Error
import LanguageClient.Document.Filter
import LanguageClient.Server.Command
import LanguageClient.Transport.Basic

/-!
# What one activation will do

A plan is made from settings, from a command line, or piece by piece. A plan with a command is
*managed*: the client launches the server, and its standard streams are piped exactly when they
carry the protocol.
-/

namespace LanguageClient

structure ActivationPlan where
  /-- The command to launch, unless the server runs on its own. -/
  command : Option ServerCommand
  transport : Transport
  filter : DocumentFilter := {}
  deriving DecidableEq, Repr

namespace ActivationPlan

def stdioFor : TransportKind → StdioPolicy
  | .stdio => .piped
  | .socket => .detached

def managed (command : ServerCommand) (transport : Transport) : ActivationPlan :=
  { command := some { command with stdio := stdioFor transport.kind }, transport }

def attached (host : String) (port : UInt16) : ActivationPlan :=
  { command := none, transport := .socket host port }

def ofSettings (s : Settings) : Except ActivationError ActivationPlan :=
  match s.validate with
  | .error e => .error (.settings e)
  | .ok _ =>
    let transport := Transport.ofSettings s
    match s.mode with
    | .managed =>
      match ServerCommand.ofSettings s with
      | .error e => .error (.launch e)
      | .ok command => .ok (managed command transport)
    | .attached => .ok { command := none, transport }

/-- The plan for a command line: over a loopback socket if the line asks for a port, over the
standard streams otherwise. -/
def ofCommandLine (line : String) : Except ActivationError ActivationPlan :=
  match ServerCommand.parse line with
  | .error e => .error (.launch e)
  | .ok command =>
    let transport := match command.portArgument with
      | some port => Transport.socket Settings.default.host port
      | none => Transport.stdio command.program command.args
    .ok (managed command transport)

def withFilter (p : ActivationPlan) (filter : DocumentFilter) : ActivationPlan := { p with filter }

def mode (p : ActivationPlan) : LaunchMode :=
  match p.command with
  | some _ => .managed
  | none => .attached

end ActivationPlan

end LanguageClient
