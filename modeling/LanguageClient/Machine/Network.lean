import LanguageClient.Transport.Connector
import LanguageClient.Uri.Components

/-!
# A network in memory

The network of a machine for rehearsals has addresses that one can listen on, but no route to any of
them. A host is given by name or by address. An address has four octets, and the last part that is
written stands for all that are left; each part can be in base eight, ten or sixteen.
-/

namespace LanguageClient.Machine

def unreachable : IoError := ⟨.networkUnreachable, some "Network is unreachable (os error 101)"⟩

def inUse : IoError := ⟨.addrInUse, some "Address already in use (os error 98)"⟩

def notLocal : IoError := ⟨.addrNotAvailable, some "Cannot assign requested address (os error 99)"⟩

def unknownHost : IoError :=
  ⟨.other, some "failed to lookup address information: Name or service not known"⟩

def zeroInText : IoError := ⟨.invalidInput, some "nul byte found in provided data"⟩

def holdsZero (s : String) : Bool := s.toList.any (· == Char.ofNat 0)

def addressPart (cs : List Char) : Option Nat :=
  match cs with
  | [] => none
  | '0' :: x :: d :: rest =>
    if x = 'x' || x = 'X' then Text.Hex.numberIn 16 (d :: rest) else Text.Hex.numberIn 8 (x :: d :: rest)
  | '0' :: rest => Text.Hex.numberIn 8 rest
  | _ => Text.Hex.numberIn 10 cs

/-- The octets of a number, so many of them, the high ones first; none if it has more. -/
def octetsOfNumber : Nat → Nat → Option (List Nat)
  | 0, n => if n = 0 then some [] else none
  | count + 1, n => (octetsOfNumber count (n / 256)).map (· ++ [n % 256])

def addressOfParts (parts : List Nat) : Option (List Nat) :=
  let front := parts.dropLast
  if parts.isEmpty || 4 < parts.length || front.any (255 < ·) then none
  else (octetsOfNumber (5 - parts.length) (parts.getLastD 0)).map (front ++ ·)

/-- The address that a host is written as: four octets, or eight groups of two. Groups can stand for
octets. -/
def addressOf (host : String) : Option (List Nat) :=
  let bytes := host.toUTF8.toList
  if Uri.isIpv6 bytes then
    match Uri.ipv6Groups bytes with
    | [0, 0, 0, 0, 0, 65535, high, low] => some [high / 256, high % 256, low / 256, low % 256]
    | groups => some groups
  else ((host.toList.splitOn '.').mapM addressPart).bind addressOfParts

def resolve (host : String) : Except IoError (List Nat) :=
  if holdsZero host then .error zeroInText
  else if Text.eqIgnoringCase host "localhost" then .ok [127, 0, 0, 1]
  else
    match addressOf host with
    | some address => .ok address
    | none => .error unknownHost

def isEvery (address : List Nat) : Bool := address.all (· == 0)

def isLocal (address : List Nat) : Bool := address.head? == some 127 || isEvery address

def overlaps (a b : List Nat) : Bool := a == b || isEvery a || isEvery b

/-- Listens at a port of a host; `held` are the addresses at which somebody listens already. -/
def listen (held : List (List Nat × UInt16)) (host : String) (port : UInt16) :
    Except IoError Unit :=
  match resolve host with
  | .error e => .error e
  | .ok address =>
    if !isLocal address then .error notLocal
    else if held.any fun h => h.2 == port && overlaps h.1 address then .error inUse
    else .ok ()

def dial (_ : Nat) : DialOutcome := .failed unreachable

end LanguageClient.Machine
