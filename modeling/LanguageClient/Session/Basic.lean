import LanguageClient.Frame.Reader
import LanguageClient.Log.Event
import LanguageClient.Rpc.Counter
import LanguageClient.Session.Call
import LanguageClient.Table

/-!
# The state of a session

A session is a value: what its calls, its reader and its refusals share, and where each of them
stands. This module holds the record and the small updates that the steps of a session are made of;
the steps themselves are in `Session/Step.lean`.

The writer is handed out in the order in which it was asked for. It is a queue of tasks whose head
holds the writer, so asking is joining the queue, and handing back, giving up and being dropped are
all leaving it.
-/

namespace LanguageClient

inductive Receiver where
  | kept
  | taken
  /-- Nobody: whoever asked has thrown the receiver away. -/
  | discarded
  deriving DecidableEq, Repr

structure Session where
  settings : SessionSettings := {}
  filter : DocumentFilter := {}
  label : String := "custom"
  processId : Nat := 0
  /-- How closing the client's end of the stream fails, if it does. -/
  closeFailure : Option IoError := none
  now : Nat := 0
  state : SessionState := .stopped
  ids : Rpc.Counter := {}
  /-- The calls that wait for a reply, by the number of their request. -/
  pending : Table Nat := {}
  /-- Whether the end of the server's stream has been seen. -/
  hungUp : Bool := false
  documents : OpenDocuments := {}
  introduction : Option Handshake.Introduction := none
  writer : Bool := true
  /-- The tasks that hold or want the writer, the holder first. -/
  queue : List Task := []
  /-- Everything the client has put on the wire. -/
  wire : List UInt8 := []
  /-- The payloads whose frames are on the wire completely, in order. -/
  sent : List (List UInt8) := []
  closed : Bool := false
  /-- The server's stream, as far as it has not been read. -/
  inbox : Frame.Stream := ⟨[], .ongoing⟩
  reader : ReaderStage := .reading
  /-- Whether the reader has been told to end. -/
  readerAborted : Bool := false
  /-- Notifications that have arrived and have not been fetched. -/
  notices : List Rpc.Notification := []
  receiver : Receiver := .kept
  calls : Table Call := {}
  refusals : Table RefusalStage := {}
  nextRefusal : Nat := 0
  /-- What there is to tell about, the oldest first. -/
  log : List Log.Event := []

namespace Session

/-- A new session on a stream: the opening handshake is its call number zero. -/
def start (settings : SessionSettings) (filter : DocumentFilter) (label : String)
    (processId now : Nat) : Session :=
  { settings, filter, label, processId, now, calls := ⟨[(0, { stage := .fresh .opening })]⟩ }

def note (s : Session) (level : Log.Level) (message : String)
    (fields : List (String × Log.Value)) : Session :=
  { s with log := s.log ++ [{ level, target := .session, message, fields }] }

def setState (s : Session) (next : SessionState) : Session :=
  { s with state := next }.note .debug "session state changed"
    [("from", .shown s.state.name), ("to", .shown next.name)]

def inFlight (s : Session) : Nat := s.pending.size

def welcome (s : Session) : Except SessionError Unit :=
  match s.state with
  | .running => if s.hungUp then .error .closed else .ok ()
  | state => .error (.notRunning state)

def joinQueue (s : Session) (t : Task) : Session := { s with queue := s.queue ++ [t] }

def leaveQueue (s : Session) (t : Task) : Session := { s with queue := s.queue.filter (· != t) }

def holdsWriter (s : Session) (t : Task) : Bool := s.queue.head? == some t

def moveCall (s : Session) (n : Nat) (stage : Stage) : Session :=
  match s.calls.get? n with
  | some c => { s with calls := s.calls.set n { c with stage } }
  | none => s

def deliver (s : Session) (n : Nat) (reply : Reply) : Session :=
  match s.calls.get? n with
  | some c => { s with calls := s.calls.set n { c with mailbox := some reply } }
  | none => s

/-- Gives up all registered requests: whoever waits is told that nobody will answer. -/
def abandonPending (s : Session) : Session :=
  s.pending.entries.foldl (fun s e => s.deliver e.2 .abandoned) { s with pending := {} }

def complete (s : Session) (r : Rpc.Response) : Session :=
  match r.requestId with
  | none => s.note .warn "discarding response without a numeric id" []
  | some id =>
    match (if 0 ≤ id then s.pending.get? id.toNat else none) with
    | some n => { s with pending := s.pending.erase id.toNat }.deliver n (.answered r)
    | none => s.note .warn "discarding response for unknown request" [("id", .int id)]

end Session

end LanguageClient
