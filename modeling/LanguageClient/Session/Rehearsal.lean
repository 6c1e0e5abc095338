import LanguageClient.Schedule
import LanguageClient.Session.Step

/-!
# A session against a scripted server

A rehearsal plays a session in virtual time. Its script says what the server writes and closes, what
the client's users ask for, and when time passes; after each line of the script everything happens
that can happen, and what could be observed from outside since the line before is recorded.

The two ends are joined by a *duplex* stream or by two one-way *pipes*. They differ in one point:
the server's writes fail once nobody can read them any more, which is as soon as the reader is gone
for a pipe, but only when both ends of the client are gone for a duplex stream.
-/

namespace LanguageClient.Rehearsal

inductive Joint where
  | duplex
  | pipes
  deriving DecidableEq, Repr

def Joint.label : Joint → String
  | .duplex => "duplex"
  | .pipes => "custom"

def Joint.dump (j : Joint) : String :=
  Text.openRecordText "ByteStream" [("label", Text.quoted j.label)]

structure Stage where
  session : Session
  joint : Joint
  serverReads : Bool := true
  serverWrites : Bool := true
  clientClosed : Bool := false
  /-- Whether the handshake has succeeded, so that users can ask for something. -/
  isOpen : Bool := false
  calls : List (String × Nat) := []
  nextCall : Nat := 1
  /-- The calls that have finished since the last record: name, time in milliseconds, outcome. -/
  finished : List (String × Nat × Outcome) := []
  sentSeen : Nat := 0
  logSeen : Nat := 0

inductive Line where
  | serverWrites (bytes : List UInt8)
  | serverCloses
  | serverStopsReading
  | serverStopsWriting
  | pass (millis : Nat)
  | ask (name : String) (ask : Ask)
  | cancel (name : String)
  | takeNotices
  | fetchNotices
  | discardNotices
  | introduction
  | dump

inductive Answer where
  | nothing
  | noSession
  | taken
  | closed
  | brokenPipe
  | yesNo (b : Bool)
  | notices (ns : List Rpc.Notification)
  | introduction (i : Option Handshake.Introduction)
  | dump (handle session filter : String)

structure Record where
  answer : Answer
  /-- The payloads that the server has received since the last record. -/
  sent : List (List UInt8)
  clientClosed : Bool
  finished : List (String × Nat × Outcome)
  pending : List String
  /-- State, outstanding requests and whether the server has hung up, once the session is open. -/
  session : Option (SessionState × Nat × Bool)
  nowMillis : Nat
  log : List Log.Event

def Stage.outlet (w : Stage) : Session.Outlet :=
  if w.serverReads then .takesAll else .refuses ⟨.brokenPipe, none⟩

def system : Schedule.System Stage Task where
  tasks w := w.session.tasks
  go w t := (w.session.go w.outlet t).map fun s => { w with session := s }
  now w := w.session.now
  setNow w t := { w with session := { w.session with now := t } }
  nextWake w := w.session.nextWake

def outcomeOf (s : Session) (n : Nat) : Option Outcome :=
  match s.calls.get? n with
  | some { stage := .over o, .. } => some o
  | _ => none

def Stage.millis (w : Stage) : Nat := w.session.now / 1000000

def Stage.collect (w : Stage) : Stage :=
  w.calls.foldl (fun w c =>
    match outcomeOf w.session c.2 with
    | none => w
    | some outcome =>
      { w with
        calls := w.calls.filter (·.2 != c.2)
        finished := w.finished ++ [(c.1, w.millis, outcome)]
        isOpen := w.isOpen || (match outcome with | .started => true | _ => false)
        session := { w.session with calls := w.session.calls.erase c.2 } }) w

def Stage.settle (w : Stage) : Stage := (system.settle w).collect

def Stage.readerGone (w : Stage) : Bool :=
  match w.joint with
  | .pipes => w.session.reader == .ended
  | .duplex => w.session.reader == .ended && w.session.closed

def handleDump (s : Session) : String :=
  Text.openRecordText "SessionHandle" [
    ("state", s.state.label),
    ("filter", Text.recordText "LanguageFilter" [
      ("scheme", Text.quoted s.filter.scheme), ("language", Text.quoted s.filter.language)])]

def sessionDump (s : Session) : String :=
  Text.openRecordText "ClientSession" [
    ("handle", handleDump s), ("settings", s.settings.dump)]

/-- Plays one line, up to the point where everything that follows from it can happen. -/
def Stage.play (w : Stage) : Line → Answer × Stage
  | .serverWrites bytes =>
    if !w.serverWrites then (.closed, w)
    else if w.readerGone then (.brokenPipe, w)
    else (.taken, { w with session := w.session.apply (.arrive bytes) })
  | .serverCloses =>
    (.nothing, { w with
      serverReads := false
      serverWrites := false
      session := w.session.apply (.endStream .closed) })
  | .serverStopsReading => (.nothing, { w with serverReads := false })
  | .serverStopsWriting =>
    (.nothing, { w with
      serverWrites := false
      session := w.session.apply (.endStream .closed) })
  | .pass millis => (.nothing, system.pass Stage.collect (millis * 1000000) w)
  | .ask name ask =>
    if w.isOpen then
      (.nothing, { w with
        calls := w.calls ++ [(name, w.nextCall)]
        nextCall := w.nextCall + 1
        session := w.session.apply (.call w.nextCall ask) })
    else (.noSession, w)
  | .cancel name =>
    match w.calls.lookup name with
    | none => (.yesNo false, w)
    | some n =>
      (.yesNo true, { w with
        calls := w.calls.filter (·.2 != n)
        session := w.session.apply (.drop n) })
  | .takeNotices =>
    if w.isOpen && w.session.receiver == .kept then
      (.yesNo true, { w with session := w.session.apply .takeNotices })
    else (.yesNo false, w)
  | .fetchNotices =>
    if w.session.receiver == .taken then
      (.notices w.session.notices, { w with session := w.session.apply .fetchNotices })
    else (.notices [], w)
  | .discardNotices =>
    if w.session.receiver == .taken then
      (.nothing, { w with session := w.session.apply .discardNotices })
    else (.nothing, w)
  | .introduction =>
    if w.isOpen then (.introduction w.session.introduction, w) else (.noSession, w)
  | .dump =>
    if w.isOpen then
      (.dump (handleDump w.session) (sessionDump w.session) w.session.filter.text, w)
    else (.noSession, w)

/-- Takes a record. What the server receives after it has stopped reading is not recorded. -/
def Stage.record (w : Stage) (answer : Answer) : Record × Stage :=
  let clientClosed := w.clientClosed || (w.serverReads && w.session.closed)
  let sent := if w.serverReads then w.session.sent.drop w.sentSeen else []
  ({ answer
     sent
     clientClosed
     finished := w.finished
     pending := (w.calls.map (·.1)).mergeSort (· ≤ ·)
     session := if w.isOpen then some (w.session.state, w.session.inFlight, w.session.hungUp)
       else none
     nowMillis := w.millis
     log := w.session.log.drop w.logSeen },
   { w with
     clientClosed
     finished := []
     sentSeen := w.session.sent.length
     logSeen := w.session.log.length })

def Stage.perform (w : Stage) (line : Line) : Record × Stage :=
  let (answer, w) := w.play line
  w.settle.record answer

def Stage.setUp (settings : SessionSettings) (filter : DocumentFilter) (joint : Joint)
    (closeFailure : Option IoError) : Stage :=
  { session := { Session.start settings filter joint.label 0 0 with closeFailure }
    joint
    calls := [("start", 0)] }

end LanguageClient.Rehearsal
