/-!
# How server processes end

`ProcessExit` is how a process ended by itself or by a signal; `Termination` is what came of the
client's own attempt to end it.
-/

namespace LanguageClient

/-- How a process ended: with an exit code, or by a signal. -/
structure ProcessExit where
  code : Option Int
  deriving DecidableEq, Repr

def ProcessExit.text (e : ProcessExit) : String :=
  match e.code with
  | some code => "exit code " ++ toString code
  | none => "terminated by signal"

inductive Termination where
  | alreadyExited
  | exited
  | killed
  | unresponsive
  deriving DecidableEq, Repr

namespace Termination

def text : Termination → String
  | .alreadyExited => "already exited"
  | .exited => "exited"
  | .killed => "killed"
  | .unresponsive => "unresponsive"

def all : List Termination := [.alreadyExited, .exited, .killed, .unresponsive]

def isTerminated : Termination → Bool
  | .unresponsive => false
  | _ => true

end Termination

end LanguageClient
