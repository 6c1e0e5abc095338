import LanguageClient.Log.Event
import LanguageClient.Transport.Basic
import LanguageClient.Transport.Error
import LanguageClient.Transport.Retry

/-!
# Connecting to a server that may still be starting

A server that was just launched may not be listening yet, so a socket is dialled again and again,
with growing delays, until one of three things settles the matter: the server is seen to have ended,
a dial succeeds, or a dial fails in a way that waiting cannot mend. If none of them happens the
attempts run out.

The outside world is two functions of the attempt: what looking at the server's process shows, and
what dialling gives. What the connector does is written down move by move.
-/

namespace LanguageClient

inductive DialOutcome where
  | connected
  | failed (cause : IoError)
  /-- Nothing happened in the time that a single attempt may take. -/
  | silent
  deriving DecidableEq, Repr

def attemptTimedOut : IoError := ⟨.timedOut, some "connect attempt timed out"⟩

def DialOutcome.failure : DialOutcome → Option IoError
  | .connected => none
  | .failed cause => some cause
  | .silent => some attemptTimedOut

inductive ConnectMove where
  | checked (exit : Option ProcessExit)
  | dialled (outcome : DialOutcome)
  | slept (delay : Duration)
  deriving DecidableEq, Repr

namespace ConnectMove

def delay : ConnectMove → Option Duration
  | .slept d => some d
  | _ => none

def outcome : ConnectMove → Option DialOutcome
  | .dialled o => some o
  | _ => none

end ConnectMove

/-- What a connector finds in the world, attempt by attempt, the first being number one. -/
structure DialWorld where
  /-- What looking at the server's process shows, if there is a process to look at. -/
  exit : Option (Nat → Option ProcessExit)
  dial : Nat → DialOutcome

structure ConnectRun where
  result : Except ConnectError Unit
  moves : List ConnectMove
  log : List Log.Event

namespace ConnectRun

def after (move : ConnectMove) (r : ConnectRun) : ConnectRun := { r with moves := move :: r.moves }

def telling (event : Log.Event) (r : ConnectRun) : ConnectRun := { r with log := event :: r.log }

def ended (result : Except ConnectError Unit) : ConnectRun := { result, moves := [], log := [] }

def exitChecks (r : ConnectRun) : Nat :=
  (r.moves.filter fun
    | .checked _ => true
    | _ => false).length

def sleeps (r : ConnectRun) : List Duration := r.moves.filterMap ConnectMove.delay

def dials (r : ConnectRun) : List DialOutcome := r.moves.filterMap ConnectMove.outcome

end ConnectRun

namespace Connector

def event (level : Log.Level) (message : String) (fields : List (String × Log.Value)) : Log.Event :=
  { level, target := .transport, message, fields }

/-- The failure that stands for the last attempt if there was none. -/
def noAttempt : IoError := ⟨.connectionRefused, none⟩

/-- Goes on connecting with attempt number `attempt`, of which `remaining` are left with this one;
`last` is how the attempt before failed. -/
def connectFrom (policy : RetryPolicy) (endpoint : String) (world : DialWorld) :
    Nat → Nat → Option IoError → ConnectRun
  | _, 0, last =>
    .ended (.error (.retriesExhausted endpoint policy.maxAttempts (last.getD noAttempt)))
  | attempt, remaining + 1, _ =>
    let dial : ConnectRun :=
      let outcome := world.dial attempt
      ConnectRun.after (.dialled outcome) <|
        match outcome.failure with
        | none =>
          (ConnectRun.ended (.ok ())).telling (event .info "connected to language server"
            [("endpoint", .shown endpoint), ("attempt", .int attempt)])
        | some cause =>
          if cause.kind.isRetryable then
            ConnectRun.telling (event .debug "language server not accepting connections yet"
              [("endpoint", .shown endpoint), ("attempt", .int attempt),
                ("error", .shown cause.message)]) <|
              let next := connectFrom policy endpoint world (attempt + 1) remaining (some cause)
              match remaining with
              | 0 => next
              | _ + 1 => next.after (.slept (policy.backoff attempt))
          else .ended (.error (.io endpoint cause))
    match world.exit with
    | none => dial
    | some exit =>
      match exit attempt with
      | some e => (ConnectRun.ended (.error (.serverExited e))).after (.checked (some e))
      | none => dial.after (.checked none)

def connect (policy : RetryPolicy) (endpoint : String) (world : DialWorld) : ConnectRun :=
  connectFrom policy endpoint world 1 policy.maxAttempts none

/-- Connects to a port of a host. `resolution` is what came of looking the host up, which happens
before anything else and only once. -/
def connectSocket (policy : RetryPolicy) (host : String) (port : UInt16)
    (resolution : Except IoError Unit) (world : DialWorld) : ConnectRun :=
  let endpoint := Transport.endpointText host port
  match resolution with
  | .error cause => .ended (.error (.resolve endpoint cause))
  | .ok _ => connect policy endpoint world

/-- Connects several times, one after the other. `one` is a single run, given how often the process
has been looked at before it. -/
def repeatedly (one : Nat → ConnectRun) : Nat → Nat → List ConnectRun
  | 0, _ => []
  | times + 1, looks =>
    let run := one looks
    run :: repeatedly one times (looks + run.exitChecks)

def takeStreams (available : Bool) : ConnectRun :=
  if available then
    (ConnectRun.ended (.ok ())).telling (event .debug "using language server standard streams" [])
  else .ended (.error .stdioUnavailable)

/-- Whether somebody else listens at an endpoint, as seen from an attempt to listen there oneself.
An address of another machine cannot be taken by anybody here. -/
def occupied (endpoint : String) : Except IoError Unit → Except ConnectError Bool
  | .ok _ => .ok false
  | .error cause =>
    match cause.kind with
    | .addrInUse => .ok true
    | .addrNotAvailable => .ok false
    | _ => .error (.io endpoint cause)

/-- Whether somebody else listens where a transport leads; `listen` is what comes of listening at a
port of a host. Nobody else can hold standard streams. -/
def occupiedAt (listen : String → UInt16 → Except IoError Unit) :
    Transport → Except ConnectError Bool
  | .socket host port => occupied (Transport.endpointText host port) (listen host port)
  | .stdio _ _ => .ok false

end Connector

end LanguageClient
