import LanguageClient.Text.Ascii
import LanguageClient.Text.Numeral

/-!
# Signals by name, and what they do

Every signal has a number, and most have a name. A process that has made no arrangements ends when
it is hit by one, except for a few that do nothing and a few that make it pause.
-/

namespace LanguageClient.Machine.Signals

def names : List String := [
  "HUP", "INT", "QUIT", "ILL", "TRAP", "ABRT", "BUS", "FPE", "KILL", "USR1", "SEGV", "USR2", "PIPE",
  "ALRM", "TERM", "16", "CHLD", "CONT", "STOP", "TSTP", "TTIN", "TTOU", "URG", "XCPU", "XFSZ",
  "VTALRM", "PROF", "WINCH", "IO", "PWR", "SYS", "32", "33", "RTMIN", "RTMIN+1", "RTMIN+2",
  "RTMIN+3", "RTMIN+4", "RTMIN+5", "RTMIN+6", "RTMIN+7", "RTMIN+8", "RTMIN+9", "RTMIN+10",
  "RTMIN+11", "RTMIN+12", "RTMIN+13", "RTMIN+14", "RTMIN+15", "RTMAX-14", "RTMAX-13", "RTMAX-12",
  "RTMAX-11", "RTMAX-10", "RTMAX-9", "RTMAX-8", "RTMAX-7", "RTMAX-6", "RTMAX-5", "RTMAX-4",
  "RTMAX-3", "RTMAX-2", "RTMAX-1", "RTMAX"]

def endName : String := "EXIT"

def numberOf? (text : List Char) : Option Nat :=
  match if text.head? = some '+' then none else Text.readNumeral Text.maxWord32 text with
  | some n => if n ≤ names.length then some n else none
  | none => (endName :: names).findIdx? fun name => Text.sameIgnoringCase name.toList text

def interrupt : Nat := 2

def kill : Nat := 9

def brokenPipe : Nat := 13

def terminate : Nat := 15

def goOn : Nat := 18

def pause : Nat := 19

inductive Effect where
  | ending
  | nothing
  | pausing
  deriving DecidableEq, Repr

def effectOf (n : Nat) : Effect :=
  if n = 17 ∨ n = goOn ∨ n = 23 ∨ n = 28 then .nothing
  else if n = pause ∨ n = 20 ∨ n = 21 ∨ n = 22 then .pausing
  else .ending

end LanguageClient.Machine.Signals
