import LanguageClient.Server.Error
import LanguageClient.Settings.Basic

/-!
# Server command lines

A command line is a program and its arguments. It is written by joining them with blanks and read
by splitting into words, so a line whose words hold no blank survives the way there and back.
-/

namespace LanguageClient

inductive StdioPolicy where
  /-- Piped, so that they can carry the protocol. -/
  | piped
  /-- Discarded; the protocol travels over a socket. -/
  | detached
  deriving DecidableEq, Repr

def StdioPolicy.name : StdioPolicy → String
  | .piped => "Piped"
  | .detached => "Detached"

structure ServerCommand where
  program : String
  args : List String
  /-- The directory it is started in, if not the client's own. -/
  workingDir : Option String := none
  stdio : StdioPolicy := .detached
  deriving DecidableEq, Repr

namespace ServerCommand

def parse (line : String) : Except LaunchError ServerCommand :=
  match Text.wordsOf line with
  | [] => .error .emptyCommand
  | program :: args => .ok { program, args }

/-- The command that settings describe: the configured words, then the client's arguments. -/
def ofSettings (s : Settings) : Except LaunchError ServerCommand :=
  match parse s.serverCommand with
  | .error e => .error e
  | .ok c => .ok { c with args := c.args ++ s.serverArgs }

def servesProtocol (c : ServerCommand) : Bool := c.args.any (· == Settings.serveSubcommand)

def afterFront : List Char → List Char → Option (List Char)
  | [], cs => some cs
  | _ :: _, [] => none
  | p :: ps, c :: cs => if p = c then afterFront ps cs else none

def readPort (text : List Char) : Option UInt16 :=
  (Text.readNumeral Text.maxWord16 text).map UInt16.ofNat

def joinedPortValue (arg : String) : Option (List Char) :=
  (afterFront "-p=".toList arg.toList).or (afterFront "--port=".toList arg.toList)

/-- The port that the first port flag among the arguments asks for. A flag with an unreadable or
missing value settles the matter: later flags are not looked at. -/
def portIn : List String → Option UInt16
  | [] => none
  | arg :: rest =>
    match joinedPortValue arg with
    | some value => readPort value
    | none =>
      if arg = "-p" ∨ arg = "--port" then
        match rest with
        | [] => none
        | value :: _ => readPort value.toList
      else portIn rest

def portArgument (c : ServerCommand) : Option UInt16 := portIn c.args

def text (c : ServerCommand) : String := c.args.foldl (fun line arg => line ++ " " ++ arg) c.program

end ServerCommand

end LanguageClient
