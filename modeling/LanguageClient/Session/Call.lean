import LanguageClient.Document.Event
import LanguageClient.Session.Error
import LanguageClient.Session.Handshake

/-!
# What the calls on a session are doing

Every call on a session is a short script with a few places at which it may have to wait: for its
turn at the writer, for the stream to take its octets, for a reply, for a moment in time, for the
reader to end. This module names the places. A call is at exactly one of them, and everything the
call remembers is written down there.

The scripts share two pieces. *Sending* puts one payload on the wire. An *exchange* is a request: it
takes a number, registers it, makes sure that the server has not hung up, sends, and waits for the
reply. What is to be done once a piece is finished is its *purpose*.
-/

namespace LanguageClient

inductive Task where
  | call (n : Nat)
  | reader
  | refusal (n : Nat)
  deriving DecidableEq, Repr

inductive Sending where
  | fresh (payload : List UInt8)
  | queued (payload : List UInt8)
  /-- It has the writer; `rest` are the octets of its frame that are not on the wire yet. -/
  | writing (payload : List UInt8) (rest : List UInt8)
  deriving DecidableEq, Repr

inductive Reply where
  | answered (response : Rpc.Response)
  | abandoned
  deriving Repr

/-- What a reply means to the requester: an error wins over a result, and no result is `null`. -/
def Reply.result : Reply → Except SessionError Json
  | .abandoned => .error .closed
  | .answered r =>
    match r.error with
    | some f => .error (SessionError.ofFailure f)
    | none => .ok (r.result.getD .null)

inductive Exchange where
  /-- It is to take a number and register it. -/
  | fresh (method : String) (params : Option Json)
  /-- It is registered; whether the server has hung up is to be looked at. -/
  | registered (request : Rpc.Request) (id : Nat)
  | sending (id : Nat) (s : Sending)
  | awaiting (id : Nat)
  deriving Repr

inductive Work where
  | exchange (e : Exchange)
  | send (s : Sending)
  deriving Repr

inductive Ask where
  | opening
  | request (method : String) (params : Option Json)
  | notify (method : String) (params : Option Json)
  | document (event : DocumentEvent)
  | stop
  deriving Repr

inductive Outcome where
  | started
  | answered (value : Json)
  | notified
  | routed (r : Routed)
  | stopped
  | failed (error : SessionError)
  deriving Repr

inductive Purpose where
  | answer
  /-- A user's message; `outcome` is the outcome once it is written. -/
  | message (outcome : Outcome)
  | introduce
  /-- The message that ends the handshake. -/
  | confirm (introduction : Handshake.Introduction)
  | shutdown
  /-- The message that the client leaves; `result` is what came of the exchange before. -/
  | leave (result : Except SessionError Unit)
  deriving Repr

inductive Closing where
  | fresh
  | queued
  /-- The writer has been taken; its end of the stream is to be closed. -/
  | shutting
  /-- The reader is to be told to end. -/
  | aborting
  | joining
  /-- The requests that are still registered are to be given up. -/
  | abandoning
  deriving DecidableEq, Repr

inductive Stage where
  | fresh (ask : Ask)
  /-- A request, a notification or a document event that was found to be welcome. -/
  | admitted (ask : Ask)
  /-- It does a piece of work, possibly only until a deadline. -/
  | working (work : Work) (deadline : Option Nat) (purpose : Purpose)
  /-- It waits for outstanding requests: until when, and when it looks again. -/
  | draining (previous : SessionState) (deadline wakeAt : Nat)
  | drained (previous : SessionState)
  /-- It closes the stream and will then fail: the handshake did not succeed. -/
  | givingUp (closing : Closing) (error : SessionError)
  /-- It closes the stream and will then be done. -/
  | ending (closing : Closing) (result : Except SessionError Unit)
  | over (outcome : Outcome)
  deriving Repr

/-- A call: where it stands, and the reply to its current request. -/
structure Call where
  stage : Stage
  mailbox : Option Reply := none
  deriving Repr

inductive RefusalStage where
  | fresh (request : Rpc.ServerRequest)
  | sending (s : Sending)
  deriving Repr

inductive ReaderStage where
  | reading
  /-- It is about to mark the session as hung up. -/
  | marking
  /-- It is about to give up all registered requests. -/
  | clearing
  | ended
  deriving DecidableEq, Repr

end LanguageClient
