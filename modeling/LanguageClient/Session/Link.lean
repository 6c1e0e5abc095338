import LanguageClient.Schedule
import LanguageClient.Session.Step

/-!
# A session and a small server

A *link* is a session together with the server at its other end. The server is as small as it can
be: it has one reaction to each method, which is to answer, to keep silent, or to hang up. It hears
the client's payloads in order and one at a time.
-/

namespace LanguageClient

/-- What a small server does when it hears of a method. -/
inductive Reaction where
  | hangUp
  | ignore
  /-- It answers with these members, if an answer is expected. -/
  | reply (members : List (String × Json))
  deriving Repr

/-- What a small server does with a method that it has no reaction to: it introduces itself. -/
def Reaction.default : Reaction := .reply [("result", .obj [("capabilities", .obj [])])]

structure Link where
  session : Session
  reactions : List (String × Reaction)
  heard : Nat := 0
  up : Bool := true

namespace Link

def outlet (l : Link) : Session.Outlet :=
  if l.up then .takesAll else .refuses ⟨.brokenPipe, none⟩

def hangUp (l : Link) : Link :=
  { l with up := false, session := l.session.apply (.endStream .closed) }

def react (l : Link) (payload : List UInt8) : Link :=
  match Json.parse payload with
  | .error _ => l
  | .ok message =>
    match message.get? "method" with
    | some (.str method) =>
      match (l.reactions.lookup method).getD Reaction.default with
      | .hangUp => l.hangUp
      | .ignore => l
      | .reply members =>
        match message.get? "id" with
        | none => l
        | some id =>
          let answer := Json.ofMembers (members ++ [("id", id), ("jsonrpc", .str "2.0")])
          { l with session := l.session.apply (.arrive (Frame.encode answer.renderBytes)) }
    | _ => l

def serverStep (l : Link) : Option Link :=
  if l.up then
    match l.session.sent[l.heard]? with
    | some payload => some ({ l with heard := l.heard + 1 }.react payload)
    | none => if l.session.closed then some l.hangUp else none
  else none

def outcomeOf (l : Link) (n : Nat) : Option Outcome :=
  match l.session.calls.get? n with
  | some { stage := .over o, .. } => some o
  | _ => none

inductive Job where
  | task (t : Task)
  | server
  deriving DecidableEq, Repr

def go (l : Link) : Job → Option Link
  | .task t => (l.session.go l.outlet t).map fun s => { l with session := s }
  | .server => l.serverStep

def system : Schedule.System Link Job where
  tasks l := l.session.calls.keys.map (fun n => .task (.call n)) ++
    [.server, .task .reader] ++ l.session.refusals.keys.map (fun n => .task (.refusal n))
  go := go
  now l := l.session.now
  setNow l t := { l with session := { l.session with now := t } }
  nextWake l := l.session.nextWake

/-- Lets things happen, and time pass where nothing else can, until call `n` of the session is over.
-/
def runCall (n : Nat) : Nat → Link → Link
  | 0, l => l
  | fuel + 1, l =>
    let l := system.settle l
    match l.outcomeOf n, l.session.nextWake with
    | none, some wake => runCall n fuel (system.setNow l wake)
    | _, _ => l

end Link

def Outcome.result : Outcome → Except SessionError Unit
  | .failed e => .error e
  | _ => .ok ()

end LanguageClient
