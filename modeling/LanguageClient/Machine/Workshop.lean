import LanguageClient.Activation.Collaborators
import LanguageClient.Client.Cycle
import LanguageClient.Machine.Dialogue
import LanguageClient.Session.Link

/-!
# A client at work on a machine in memory

The workshop of a rehearsed client: it launches programs of a machine in memory, dials on its
network, and opens sessions over the standard streams of what it has launched. Besides the machine's
own programs some small language servers may be installed. A session with one of those is a link, a
session with another program is a dialogue.
-/

namespace LanguageClient.Machine

open Activation (Answer Request)

structure Installed where
  path : String
  /-- Its reactions, by the arguments that it is launched with. -/
  reactions : List String → List (String × Reaction)

structure Site where
  held : List (List Nat × UInt16) := []
  servers : List Installed := []
  collaborators : Collaborators := {}

/-- What the client has made. Everything carries the number of the call that it was made for. -/
structure Made where
  processes : Table Observed := {}
  reactions : Table (List (String × Reaction)) := {}
  links : Table Link := {}
  talks : Table Session := {}

namespace Site

def launchServer (s : Site) (c : ServerCommand) : Observed :=
  let program := Program.ofActs [.sleepUntil Utility.horizon]
  { program
    process := {
      child := program.child
      grace := s.collaborators.grace
      log := [Process.launchEvent c, Process.launchedEvent 0 c] }
    streams := if c.stdio = .piped then .held else .absent }

def launchFor (s : Site) (m : Made) (n : Nat) (c : ServerCommand) :
    Answer × List Log.Event × Made :=
  match s.servers.find? (·.path == c.program) with
  | some server =>
    let o := s.launchServer c
    (.launched (.ok ()), o.process.log,
      { m with
        processes := m.processes.set n o
        reactions := m.reactions.set n (server.reactions c.args) })
  | none =>
    match observe c s.collaborators.grace with
    | .error (e, log) => (.launched (.error e), log, m)
    | .ok o => (.launched (.ok ()), o.process.log, { m with processes := m.processes.set n o })

def connectFor (s : Site) (m : Made) (n : Nat) : Transport → ConnectRun × Made
  | .socket host port =>
    let exit := (m.processes.get? n).map fun o (_ : Nat) => o.look.process.tryExit.1
    let resolution := (resolve host).map fun _ => ()
    (Connector.connectSocket s.collaborators.policy host port resolution { exit, dial }, m)
  | .stdio _ _ =>
    match m.processes.get? n with
    | some o =>
      let (upshot, taken) := o.perform .takeStreams
      (Connector.takeStreams (upshot != .nothing),
        { m with processes := m.processes.set n taken })
    | none => (Connector.takeStreams false, m)

def clockLooks : Nat := 1000

def resultOf (s : Session) (n : Nat) : Except SessionError Unit :=
  match Rehearsal.outcomeOf s n with
  | some outcome => outcome.result
  | none => .error .closed

def keepLink (m : Made) (n : Nat) (l : Link) : List Log.Event × Made :=
  (l.session.log, { m with links := m.links.set n { l with session := { l.session with log := [] } } })

def keepTalk (m : Made) (n : Nat) (o : Observed) (d : Dialogue) : List Log.Event × Made :=
  (d.session.log, { m with
    processes := m.processes.set n { o with program := d.program }
    talks := m.talks.set n { d.session with log := [] } })

/-- The reactions of what is not there: it hangs up at the first word. -/
def nobody : List (String × Reaction) := [(TimedOperation.opening.name, .hangUp)]

def openFor (s : Site) (m : Made) (n : Nat) (filter : DocumentFilter) :
    Answer × List Log.Event × Made :=
  let start (now : Nat) : Session := Session.start s.collaborators.sessions filter "stdio" 0 now
  match m.reactions.get? n, m.processes.get? n with
  | none, some o =>
    let d := { session := start o.program.now, program := o.program : Dialogue }.runCall 0
    (.opened (resultOf d.session 0), keepTalk m n o d)
  | reactions, _ =>
    let link : Link := { session := start 0, reactions := reactions.getD nobody }
    let link := link.runCall 0 clockLooks
    (.opened (resultOf link.session 0), keepLink m n link)

def stopFor (m : Made) (n session : Nat) : Answer × List Log.Event × Made :=
  match m.links.get? session, m.talks.get? session, m.processes.get? session with
  | some link, _, _ =>
    let asked : Link := { link with session := link.session.apply (.call n .stop) }
    let link := asked.runCall n clockLooks
    (.stopped (resultOf link.session n) link.session.state, keepLink m session link)
  | none, some talk, some o =>
    let asked : Dialogue := { session := talk.apply (.call n .stop), program := o.program }
    let d := asked.runCall n
    (.stopped (resultOf d.session n) d.session.state, keepTalk m session o d)
  | _, _, _ => (.stopped (.ok ()) .stopped, [], m)

/-- The sessions with programs go on until the client is interrupted; with a language server nothing
happens by itself. -/
def idle (m : Made) : List Log.Event × Made :=
  m.talks.entries.foldl (fun (events, m) (n, talk) =>
    match m.processes.get? n with
    | some o =>
      let d := { session := talk, program := o.program : Dialogue }.runUntilInterrupted
      let (more, m) := keepTalk m n o d
      (events ++ more, m)
    | none => (events, m)) ([], m)

def killFor (m : Made) (process : Nat) : Answer × List Log.Event × Made :=
  match m.processes.get? process with
  | none => (.killed .alreadyExited, [], m)
  | some o =>
    let (outcome, after) := o.kill
    (.killed outcome, after.process.log.drop o.process.log.length,
      { m with processes := m.processes.set process after })

def serve (s : Site) (m : Made) (n : Nat) : Request → Answer × List Log.Event × Made
  | .probe transport => (.probed (Connector.occupiedAt (listen s.held) transport), [], m)
  | .launch command => s.launchFor m n command
  | .connect transport _ =>
    let (run, m) := s.connectFor m n transport
    (.connected run.result, run.log, m)
  | .openSession filter => s.openFor m n filter
  | .stopSession session => stopFor m n session
  | .kill process => killFor m process

def workshop (s : Site) : Client.Workshop Made where
  serve := s.serve
  idle := idle

end Site

end LanguageClient.Machine
