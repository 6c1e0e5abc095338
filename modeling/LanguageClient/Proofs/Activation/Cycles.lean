import LanguageClient.Proofs.Activation.Ledger

/-!
# What the collaborators of a controller see

Seen from the collaborators a controller is the sequence of what it asks of them. This file writes
down the shapes which that sequence can have, without a controller: the *pieces* (probing,
launching, connecting, opening, stopping, ending), the ways in which they make up a failed cycle
(`Failing`) and a whole call (`Entry.Fits`), and the sequences of whole calls (`Diary`). A cycle that
succeeds stays open until a deactivation closes it, so a diary carries the server that is active at
its end.

**`trace_is_a_diary`** says that a run after which no call is in progress has left a diary behind,
with one entry for every call that was made. The accounting of launches and kills, and who may be
launched and ended at all, are facts about diaries.
-/

namespace LanguageClient.Activation

/-! ## The pieces of a cycle -/

/-- The endpoint of a server that is to be launched on a socket is found free; others are not looked
at. -/
def probeDeeds (n : Nat) (plan : ActivationPlan) : List Deed :=
  match plan.command, plan.transport.kind with
  | some _, .socket => [.asked n (.probe plan.transport), .answered n (.probed (.ok false))]
  | _, _ => []

def launchDeeds (n : Nat) (plan : ActivationPlan) : List Deed :=
  match plan.command with
  | some command => [.asked n (.launch command), .answered n (.launched (.ok ()))]
  | none => []

def connectDeeds (n : Nat) (plan : ActivationPlan) (result : Except ConnectError Unit) :
    List Deed :=
  [.asked n (.connect plan.transport plan.command.isSome), .answered n (.connected result)]

def openDeeds (n : Nat) (plan : ActivationPlan) (result : Except SessionError Unit) : List Deed :=
  [.asked n (.openSession plan.filter), .answered n (.opened result)]

def stopDeeds (n : Nat) (server : ActiveServer) (result : Except SessionError Unit)
    (state : SessionState) : List Deed :=
  [.asked n (.stopSession server.owner), .answered n (.stopped result state)]

def killDeeds (n p : Nat) (launched : Bool) (outcome : Termination) : List Deed :=
  if launched then [.asked n (.kill p), .answered n (.killed outcome)] else []

/-- What an activation does that fails, and the error that it fails with. Whatever was launched is
ended at once. -/
inductive Failing (n : Nat) (plan : ActivationPlan) : List Deed → ActivationError → Prop where
  | unprobed {command : ServerCommand} {e : ConnectError} (hcmd : plan.command = some command)
      (hkind : plan.transport.kind = .socket) :
      Failing n plan [.asked n (.probe plan.transport), .answered n (.probed (.error e))]
        (.connect e)
  | held {command : ServerCommand} (hcmd : plan.command = some command)
      (hkind : plan.transport.kind = .socket) :
      Failing n plan [.asked n (.probe plan.transport), .answered n (.probed (.ok true))]
        (.portInUse plan.transport.text)
  | unlaunched {command : ServerCommand} {e : LaunchError} (hcmd : plan.command = some command) :
      Failing n plan
        (probeDeeds n plan ++ [.asked n (.launch command), .answered n (.launched (.error e))])
        (.launch e)
  | unconnected {e : ConnectError} {outcome : Termination} :
      Failing n plan
        (probeDeeds n plan ++ launchDeeds n plan ++ connectDeeds n plan (.error e) ++
          killDeeds n n plan.command.isSome outcome)
        (.connect e)
  | unopened {e : SessionError} {outcome : Termination} :
      Failing n plan
        (probeDeeds n plan ++ launchDeeds n plan ++ connectDeeds n plan (.ok ()) ++
          openDeeds n plan (.error e) ++ killDeeds n n plan.command.isSome outcome)
        (.session e)

def bringUpDeeds (n : Nat) (plan : ActivationPlan) : List Deed :=
  probeDeeds n plan ++ launchDeeds n plan ++ connectDeeds n plan (.ok ()) ++
    openDeeds n plan (.ok ())

/-! ## Diaries -/

/-- A call that is over: what it asked for, what came of it, and what it did. -/
structure Entry where
  call : Nat
  ask : Ask
  outcome : Outcome
  deeds : List Deed

/-- What a call may have done, between the server that was active before it and the server that is
active after it. -/
inductive Entry.Fits : Option ActiveServer → Entry → Option ActiveServer → Prop where
  | activated {n : Nat} {ask : Ask} {plan : ActivationPlan} (hask : ask.plan = some (.ok plan)) :
      Fits none ⟨n, ask, .activated, bringUpDeeds n plan⟩ (some ⟨n, plan.command.isSome⟩)
  | failed {n : Nat} {ask : Ask} {plan : ActivationPlan} {deeds : List Deed} {e : ActivationError}
      (hask : ask.plan = some (.ok plan)) (hf : Failing n plan deeds e) :
      Fits none ⟨n, ask, .refused e, deeds⟩ none
  | deactivated {n : Nat} {ask : Ask} {server : ActiveServer} {result : Except SessionError Unit}
      {state : SessionState} {outcome : Termination} (hask : ask.windsDown = true) :
      Fits (some server)
        ⟨n, ask,
          .deactivated
            { sessionStopped := state == .stopped
              sessionError := stopError result
              termination := if server.launched then some outcome else none },
          stopDeeds n server result state ++ killDeeds n server.owner server.launched outcome⟩
        none
  -- Calls that find nothing to do.
  | alreadyActive {n : Nat} {ask : Ask} {plan : ActivationPlan} {server : ActiveServer}
      (hask : ask.plan = some (.ok plan)) :
      Fits (some server) ⟨n, ask, .refused .alreadyActive, []⟩ (some server)
  | idle {n : Nat} {ask : Ask} (hask : ask.windsDown = true) :
      Fits none ⟨n, ask, .deactivated .idle, []⟩ none
  | notBusy {n : Nat} : Fits none ⟨n, .deactivateIfBusy, .notBusy, []⟩ none
  | invalid {n : Nat} {ask : Ask} {e : ActivationError} {server : Option ActiveServer}
      (hask : ask.plan = some (.error e)) : Fits server ⟨n, ask, .refused e, []⟩ server
  | found {n : Nat} {server : Option ActiveServer} :
      Fits server ⟨n, .session, .found (server.map (·.owner)), []⟩ server

/-- Calls that follow one another, from no server to the server that is active at the end. -/
inductive Diary : List Entry → Option ActiveServer → Prop where
  | empty : Diary [] none
  | entry {entries : List Entry} {e : Entry} {before after : Option ActiveServer}
      (hd : Diary entries before) (he : e.Fits before after) : Diary (entries ++ [e]) after

def Deed.isStart : Deed → Bool
  | .answered _ (.launched (.ok _)) => true
  | _ => false

def Deed.isKill : Deed → Bool
  | .asked _ (.kill _) => true
  | _ => false

def processesDue (server : Option ActiveServer) : Nat :=
  if server.any (·.launched) then 1 else 0

theorem probeDeeds_count (n : Nat) (plan : ActivationPlan) :
    (probeDeeds n plan).countP Deed.isStart = 0 ∧ (probeDeeds n plan).countP Deed.isKill = 0 := by
  unfold probeDeeds
  split <;> exact ⟨rfl, rfl⟩

theorem launchDeeds_count (n : Nat) (plan : ActivationPlan) :
    (launchDeeds n plan).countP Deed.isStart = (if plan.command.isSome then 1 else 0) ∧
      (launchDeeds n plan).countP Deed.isKill = 0 := by
  unfold launchDeeds
  cases plan.command <;> exact ⟨rfl, rfl⟩

theorem killDeeds_count (n p : Nat) (launched : Bool) (outcome : Termination) :
    (killDeeds n p launched outcome).countP Deed.isStart = 0 ∧
      (killDeeds n p launched outcome).countP Deed.isKill = if launched then 1 else 0 := by
  cases launched <;> exact ⟨rfl, rfl⟩

variable {before after : Option ActiveServer} {e : Entry} {entries : List Entry} {n m : Nat}
  {request : Request}

theorem Entry.Fits.balance (h : e.Fits before after) :
    e.deeds.countP Deed.isStart + processesDue before =
      e.deeds.countP Deed.isKill + processesDue after := by
  cases h with
  | activated hask =>
    simp [bringUpDeeds, connectDeeds, openDeeds, probeDeeds_count, launchDeeds_count,
      processesDue, Deed.isStart, Deed.isKill]
  | failed hask hf =>
    cases hf <;>
      simp [connectDeeds, openDeeds, probeDeeds_count, launchDeeds_count, killDeeds_count,
        processesDue, Deed.isStart, Deed.isKill]
  | deactivated hask =>
    simp [stopDeeds, killDeeds_count, processesDue, Deed.isStart, Deed.isKill]
  | alreadyActive | idle | notBusy | invalid | found => rfl

/-- Launches and kills balance up to the server that is active. -/
theorem Diary.balance {server : Option ActiveServer} (h : Diary entries server) :
    (entries.flatMap Entry.deeds).countP Deed.isStart =
      (entries.flatMap Entry.deeds).countP Deed.isKill + processesDue server := by
  induction h with
  | empty => rfl
  | @entry entries e before after hd he ih =>
    have := he.balance
    simp only [List.flatMap_append, List.flatMap_singleton, List.countP_append]
    omega

/-! ## Who is launched and ended -/

theorem mem_probeDeeds {plan : ActivationPlan} : .asked m request ∈ probeDeeds n plan ↔
    (plan.command.isSome = true ∧ plan.transport.kind = .socket) ∧ m = n ∧
      request = .probe plan.transport := by
  cases hcmd : plan.command <;> cases hkind : plan.transport.kind <;> simp [probeDeeds, hcmd, hkind]

theorem mem_launchDeeds {plan : ActivationPlan} : .asked m request ∈ launchDeeds n plan ↔
    m = n ∧ ∃ command, plan.command = some command ∧ request = .launch command := by
  cases hcmd : plan.command <;> simp [launchDeeds, hcmd]

theorem mem_killDeeds {p : Nat} {launched : Bool} {outcome : Termination} :
    .asked m request ∈ killDeeds n p launched outcome ↔
      launched = true ∧ m = n ∧ request = .kill p := by
  cases launched <;> simp [killDeeds]

theorem Entry.Fits.launch_planned {command : ServerCommand} (h : e.Fits before after)
    (hd : .asked m (.launch command) ∈ e.deeds) :
    m = e.call ∧ ∃ plan, e.ask.plan = some (.ok plan) ∧ plan.command = some command := by
  cases h with
  | @activated n ask plan hask =>
    have hd' : m = n ∧ plan.command = some command := by
      simpa [bringUpDeeds, connectDeeds, openDeeds, mem_probeDeeds, mem_launchDeeds] using hd
    exact ⟨hd'.1, plan, hask, hd'.2⟩
  | @failed n ask plan deeds error hask hf =>
    have hd' : m = n ∧ plan.command = some command := by
      cases hf <;>
        simp_all [connectDeeds, openDeeds, mem_probeDeeds, mem_launchDeeds, mem_killDeeds]
    exact ⟨hd'.1, plan, hask, hd'.2⟩
  | deactivated hask => simp [stopDeeds, mem_killDeeds] at hd
  | alreadyActive | idle | notBusy | invalid | found => simp at hd

/-- What a call ends it has launched itself, or it belongs to the server that is wound down. -/
theorem Entry.Fits.kill_planned {p : Nat} (h : e.Fits before after)
    (hd : .asked m (.kill p) ∈ e.deeds) :
    (p = e.call ∧ ∃ plan, e.ask.plan = some (.ok plan) ∧ plan.command.isSome = true) ∨
      ∃ server, before = some server ∧ server.owner = p ∧ server.launched = true := by
  cases h with
  | activated hask =>
    simp [bringUpDeeds, connectDeeds, openDeeds, mem_probeDeeds, mem_launchDeeds] at hd
  | @failed n ask plan deeds error hask hf =>
    have hd' : p = n ∧ plan.command.isSome = true := by
      cases hf <;>
        simp_all [connectDeeds, openDeeds, mem_probeDeeds, mem_launchDeeds, mem_killDeeds]
    exact .inl ⟨hd'.1, plan, hask, hd'.2⟩
  | @deactivated n ask server result state outcome hask =>
    have hd' : server.launched = true ∧ m = n ∧ p = server.owner := by
      simpa [stopDeeds, mem_killDeeds] using hd
    exact .inr ⟨server, rfl, hd'.2.2.symm, hd'.1⟩
  | alreadyActive | idle | notBusy | invalid | found => simp at hd

/-- A server is active only after a call has brought it up, and it was launched if the plan of that
call said so. -/
theorem Diary.server_planned (h : Diary entries after) {server : ActiveServer}
    (hs : after = some server) :
    ∃ e ∈ entries, e.call = server.owner ∧
      ∃ plan, e.ask.plan = some (.ok plan) ∧ plan.command.isSome = server.launched := by
  induction h with
  | empty => cases hs
  | @entry entries e before after hd he ih =>
    have hold : before = some server → ∃ e' ∈ entries ++ [e], e'.call = server.owner ∧
        ∃ plan, e'.ask.plan = some (.ok plan) ∧ plan.command.isSome = server.launched := by
      intro hb
      obtain ⟨e', hmem, hfacts⟩ := ih hb
      exact ⟨e', List.mem_append_left _ hmem, hfacts⟩
    cases he with
    | activated hask =>
      obtain rfl := Option.some.inj hs
      exact ⟨_, List.mem_append_right _ List.mem_cons_self, rfl, _, hask, rfl⟩
    | alreadyActive hask => exact hold hs
    | invalid hask => exact hold hs
    | found => exact hold hs
    | failed | deactivated | idle | notBusy => cases hs

theorem Diary.planned {server : Option ActiveServer} (h : Diary entries server) :
    (∀ m command, .asked m (.launch command) ∈ entries.flatMap Entry.deeds →
      ∃ e ∈ entries, e.call = m ∧
        ∃ plan, e.ask.plan = some (.ok plan) ∧ plan.command = some command) ∧
    (∀ m p, .asked m (.kill p) ∈ entries.flatMap Entry.deeds →
      ∃ e ∈ entries, e.call = p ∧
        ∃ plan, e.ask.plan = some (.ok plan) ∧ plan.command.isSome = true) := by
  induction h with
  | empty => simp
  | @entry entries e before after hd he ih =>
    simp only [List.flatMap_append, List.flatMap_singleton, List.mem_append]
    refine ⟨fun m command hmem => ?_, fun m p hmem => ?_⟩
    · rcases hmem with hmem | hmem
      · obtain ⟨e', he', hfacts⟩ := ih.1 m command hmem
        exact ⟨e', .inl he', hfacts⟩
      · obtain ⟨rfl, hplan⟩ := he.launch_planned hmem
        exact ⟨e, .inr List.mem_cons_self, rfl, hplan⟩
    · rcases hmem with hmem | hmem
      · obtain ⟨e', he', hfacts⟩ := ih.2 m p hmem
        exact ⟨e', .inl he', hfacts⟩
      · rcases he.kill_planned hmem with ⟨rfl, hplan⟩ | ⟨server, hb, rfl, hown⟩
        · exact ⟨e, .inr List.mem_cons_self, rfl, hplan⟩
        · obtain ⟨e', he', hcall, plan, hask, hcmd⟩ := hd.server_planned hb
          exact ⟨e', .inl he', hcall, plan, hask, hcmd.trans hown⟩

/-! ## Calls in the middle of something

The entry of a call is written as a whole when the call is over. Until then `Begun` says what it has
done. -/

/-- What call `n` has done so far at a stage in the middle of something; `before` is the server that
was active when it began. -/
inductive Begun (n : Nat) (ask : Ask) : Option ActiveServer → Stage → List Deed → Prop where
  | probing {plan : ActivationPlan} {command : ServerCommand} (hask : ask.plan = some (.ok plan))
      (hcmd : plan.command = some command) (hkind : plan.transport.kind = .socket) :
      Begun n ask none (.probing plan) [.asked n (.probe plan.transport)]
  | launching {plan : ActivationPlan} {command : ServerCommand}
      (hask : ask.plan = some (.ok plan)) (hcmd : plan.command = some command) :
      Begun n ask none (.launching plan command)
        (probeDeeds n plan ++ [.asked n (.launch command)])
  | connecting {plan : ActivationPlan} (hask : ask.plan = some (.ok plan)) :
      Begun n ask none (.connecting plan)
        (probeDeeds n plan ++ launchDeeds n plan ++
          [.asked n (.connect plan.transport plan.command.isSome)])
  | opening {plan : ActivationPlan} (hask : ask.plan = some (.ok plan)) :
      Begun n ask none (.opening plan)
        (probeDeeds n plan ++ launchDeeds n plan ++ connectDeeds n plan (.ok ()) ++
          [.asked n (.openSession plan.filter)])
  | releasing {plan : ActivationPlan} {e : ActivationError} {deeds : List Deed}
      (hask : ask.plan = some (.ok plan))
      (hf : ∀ outcome, Failing n plan (deeds ++ [.answered n (.killed outcome)]) e) :
      Begun n ask none (.releasing e) deeds
  | stopping {server : ActiveServer} (hask : ask.windsDown = true) :
      Begun n ask (some server) (.stopping server) [.asked n (.stopSession server.owner)]
  | ending {server : ActiveServer} (result : Except SessionError Unit) (state : SessionState)
      (hask : ask.windsDown = true) (hown : server.launched = true) :
      Begun n ask (some server) (.ending server (state == .stopped) (stopError result))
        (stopDeeds n server result state ++ [.asked n (.kill server.owner)])

/-- A turn of call `n` carries it on, or completes its entry. -/
def Advances (n : Nat) (ask : Ask) (before : Option ActiveServer) (v' : View)
    (deeds : List Deed) : Prop :=
  (v'.server = none ∧ Begun n ask before v'.stage deeds) ∨
    ∃ outcome, v'.stage = .over outcome ∧ Entry.Fits before ⟨n, ask, outcome, deeds⟩ v'.server

theorem Turn.first {ask : Ask} {phase : ActivationPhase} {v' : View} {deeds : List Deed}
    (ht : Turn n ⟨phase, before, .queued ask⟩ deeds v') :
    Advances n ask before v' deeds := by
  cases ht with
  | alreadyActive hask => exact .inr ⟨_, rfl, .alreadyActive hask⟩
  | invalid hask => exact .inr ⟨_, rfl, .invalid hask⟩
  | idle hask => exact .inr ⟨_, rfl, .idle hask⟩
  | found => exact .inr ⟨_, rfl, .found⟩
  | @attach _ _ plan hask hcmd =>
    have hb : Begun n ask none (.connecting plan) _ := .connecting hask
    rw [show probeDeeds n plan = [] by simp [probeDeeds, hcmd],
      show launchDeeds n plan = [] by simp [launchDeeds, hcmd], hcmd] at hb
    exact .inl ⟨rfl, hb⟩
  | probe hask hcmd hkind => exact .inl ⟨rfl, .probing hask hcmd hkind⟩
  | @launch _ _ plan command hask hcmd hkind =>
    have hb : Begun n ask none (.launching plan command) _ := .launching hask hcmd
    rw [show probeDeeds n plan = [] by simp [probeDeeds, hcmd, hkind]] at hb
    exact .inl ⟨rfl, hb⟩
  | stop hask => exact .inl ⟨rfl, .stopping hask⟩

theorem Turn.advances {ask : Ask} {phase : ActivationPhase} {stage : Stage} {v' : View}
    {deeds more : List Deed} (hb : Begun n ask before stage deeds)
    (ht : Turn n ⟨phase, none, stage⟩ more v') : Advances n ask before v' (deeds ++ more) := by
  cases hb with
  | @probing plan command hask hcmd hkind =>
    cases ht with
    | unprobed e => exact .inr ⟨_, rfl, .failed hask (.unprobed hcmd hkind)⟩
    | held => exact .inr ⟨_, rfl, .failed hask (.held hcmd hkind)⟩
    | @free _ _ _ command' hcmd' =>
      have hb : Begun n ask none (.launching plan command') _ := .launching hask hcmd'
      rw [show probeDeeds n plan = [.asked n (.probe plan.transport),
        .answered n (.probed (.ok false))] by simp [probeDeeds, hcmd, hkind]] at hb
      exact .inl ⟨rfl, hb⟩
    | freeAttached hcmd' =>
      rw [hcmd] at hcmd'
      cases hcmd'
  | @launching plan command hask hcmd =>
    cases ht with
    | unlaunched e =>
      refine .inr ⟨_, rfl, .failed hask ?_⟩
      rw [List.append_assoc]
      exact .unlaunched hcmd
    | launched =>
      have hb : Begun n ask none (.connecting plan) _ := .connecting hask
      rw [show launchDeeds n plan = [.asked n (.launch command), .answered n (.launched (.ok ()))]
        by simp [launchDeeds, hcmd]] at hb
      exact .inl ⟨rfl, by simpa using hb⟩
  | @connecting plan hask =>
    -- What would be left to do after a failure is to end the process.
    have hfail : ∀ e outcome, Failing n plan _ (.connect e) :=
      fun e outcome => @Failing.unconnected n plan e outcome
    cases ht with
    | unconnected e hcmd =>
      refine .inr ⟨_, rfl, .failed hask ?_⟩
      simpa [killDeeds, connectDeeds, hcmd] using hfail e .exited
    | unconnectedRelease e hcmd =>
      refine .inl ⟨rfl, .releasing hask fun outcome => ?_⟩
      simpa [killDeeds, connectDeeds, hcmd] using hfail e outcome
    | connected =>
      have hb : Begun n ask none (.opening plan) _ := .opening hask
      exact .inl ⟨rfl, by simpa [connectDeeds] using hb⟩
  | @opening plan hask =>
    have hfail : ∀ e outcome, Failing n plan _ (.session e) :=
      fun e outcome => @Failing.unopened n plan e outcome
    cases ht with
    | unopened e hcmd =>
      refine .inr ⟨_, rfl, .failed hask ?_⟩
      simpa [killDeeds, openDeeds, hcmd] using hfail e .exited
    | unopenedRelease e hcmd =>
      refine .inl ⟨rfl, .releasing hask fun outcome => ?_⟩
      simpa [killDeeds, openDeeds, hcmd] using hfail e outcome
    | opened =>
      have hf : Entry.Fits none ⟨n, ask, _, _⟩ _ := .activated hask
      exact .inr ⟨_, rfl, by simpa [bringUpDeeds, openDeeds] using hf⟩
  | releasing hask hf =>
    cases ht with
    | released outcome => exact .inr ⟨_, rfl, .failed hask (hf outcome)⟩
  | @stopping server hask =>
    cases ht with
    | stopped result state hown =>
      have hf : Entry.Fits (some server) ⟨n, ask, _, _⟩ none :=
        @Entry.Fits.deactivated n ask server result state .exited hask
      exact .inr ⟨_, rfl, by simpa [stopDeeds, killDeeds, hown] using hf⟩
    | stoppedEnding result state hown => exact .inl ⟨rfl, .ending result state hask hown⟩
  | @ending server result state hask hown =>
    cases ht with
    | ended outcome =>
      have hf : Entry.Fits (some server) ⟨n, ask, _, _⟩ none :=
        @Entry.Fits.deactivated n ask server result state outcome hask
      exact .inr ⟨_, rfl, by simpa [stopDeeds, killDeeds, hown] using hf⟩

namespace Controller

/-! ## The roll of calls

Entries are for calls that are over, each once. For that, calls are kept track of by their numbers.
-/

def Event.askUnder (n : Nat) : Event → Option Ask
  | .call m ask => if m = n then some ask else none
  | .step _ | .answer _ _ | .drop _ => none

/-- What call `n` of a run asks for. The first call under a number takes it. -/
def askOf (events : List Event) (n : Nat) : Option Ask := events.findSome? (Event.askUnder n)

theorem askOf_snoc (events : List Event) (e : Event) (n : Nat) :
    askOf (events ++ [e]) n = (askOf events n).or (e.askUnder n) := by
  simp [askOf, List.findSome?_append, List.findSome?_cons]
  cases e.askUnder n <;> rfl

/-- Which calls were made, which of them are over, and which have not begun. -/
structure Roll (events : List Event) (calls : Table Stage) (entries : List Entry) : Prop where
  made : ∀ n, askOf events n = none ↔ calls.get? n = none
  unbegun : ∀ n stage ask, calls.get? n = some stage → stage = .fresh ask ∨ stage = .queued ask →
    askOf events n = some ask
  distinct : (entries.map Entry.call).Nodup
  recorded : ∀ e ∈ entries,
    askOf events e.call = some e.ask ∧ calls.get? e.call = some (.over e.outcome)
  complete : ∀ n outcome, calls.get? n = some (.over outcome) → ∃ e ∈ entries, e.call = n

variable {events : List Event} {calls : Table Stage} {entries : List Entry}

variable {e : Event} {ask : Ask} {stage' : Stage} {deeds : List Deed} {c c' : Controller}

theorem Roll.skip (h : Roll events calls entries)
    (he : ∀ n ask, e = .call n ask → (calls.get? n).isSome = true) :
    Roll (events ++ [e]) calls entries := by
  have hsame : askOf (events ++ [e]) = askOf events := by
    funext n
    rw [askOf_snoc]
    cases ha : askOf events n with
    | some ask => rfl
    | none =>
      rw [Option.none_or]
      cases e with
      | call m ask =>
        have hmn : m ≠ n := by
          rintro rfl
          have := he m ask rfl
          rw [(h.made m).mp ha] at this
          cases this
        exact if_neg hmn
      | step | answer | drop => rfl
  refine ⟨?_, ?_, h.distinct, ?_, h.complete⟩
  · rw [hsame]
    exact h.made
  · rw [hsame]
    exact h.unbegun
  · rw [hsame]
    exact h.recorded

theorem Roll.call (h : Roll events calls entries) (hn : calls.get? n = none) :
    Roll (events ++ [Event.call n ask]) (calls.set n (.fresh ask)) entries := by
  have hnew : askOf (events ++ [Event.call n ask]) n = some ask := by
    rw [askOf_snoc, (h.made n).mpr hn]
    simp [Event.askUnder]
  have hold : ∀ m, m ≠ n → askOf (events ++ [Event.call n ask]) m = askOf events m := by
    intro m hm
    rw [askOf_snoc, Event.askUnder, if_neg (Ne.symm hm), Option.or_none]
  refine ⟨fun m => ?_, fun m stage ask' hm hs => ?_, h.distinct, fun e he => ?_,
    fun m outcome hm => ?_⟩
  · by_cases hmn : m = n
    · simp [hmn, hnew]
    · rw [hold m hmn, Table.get?_set_of_ne _ _ hmn]
      exact h.made m
  · rcases Table.get?_set_eq_some.mp hm with ⟨rfl, rfl⟩ | ⟨hmn, hm⟩
    · rcases hs with hs | hs
      · rw [hnew, Stage.fresh.inj hs]
      · cases hs
    · rw [hold m hmn]
      exact h.unbegun m stage ask' hm hs
  · obtain ⟨hask, hover⟩ := h.recorded e he
    have hen : e.call ≠ n := fun heq => by rw [heq, hn] at hover; cases hover
    rw [hold _ hen, Table.get?_set_of_ne _ _ hen]
    exact ⟨hask, hover⟩
  · rcases Table.get?_set_eq_some.mp hm with ⟨-, heq⟩ | ⟨-, hm⟩
    · cases heq
    · exact h.complete m outcome hm

theorem Roll.move (h : Roll events calls entries) {old : Stage} (hn : calls.get? n = some old)
    (hold : ∀ outcome, old ≠ .over outcome) (hnew : ∀ outcome, stage' ≠ .over outcome)
    (hask : ∀ ask, stage' = .fresh ask ∨ stage' = .queued ask → askOf events n = some ask) :
    Roll events (calls.set n stage') entries := by
  refine ⟨fun m => ?_, fun m stage ask hm hs => ?_, h.distinct, fun e he => ?_,
    fun m outcome hm => ?_⟩
  · rw [Table.get?_set]
    by_cases hmn : m = n
    · rw [if_pos hmn, h.made m, hmn, hn]
      simp
    · rw [if_neg hmn]
      exact h.made m
  · rcases Table.get?_set_eq_some.mp hm with ⟨rfl, rfl⟩ | ⟨-, hm⟩
    · exact hask ask hs
    · exact h.unbegun m stage ask hm hs
  · obtain ⟨ha, hover⟩ := h.recorded e he
    have hen : e.call ≠ n := by
      intro heq
      rw [heq, hn, Option.some.injEq] at hover
      exact hold _ hover
    rw [Table.get?_set_of_ne _ _ hen]
    exact ⟨ha, hover⟩
  · rcases Table.get?_set_eq_some.mp hm with ⟨-, heq⟩ | ⟨-, hm⟩
    · exact absurd heq.symm (hnew outcome)
    · exact h.complete m outcome hm

theorem Roll.finish (h : Roll events calls entries) {old : Stage} {outcome : Outcome}
    (hn : calls.get? n = some old) (hold : ∀ outcome, old ≠ .over outcome)
    (hask : askOf events n = some ask) :
    Roll events (calls.set n (.over outcome)) (entries ++ [⟨n, ask, outcome, deeds⟩]) := by
  have hnew : ∀ e ∈ entries, e.call ≠ n := by
    intro e he heq
    have hover := (h.recorded e he).2
    rw [heq, hn, Option.some.injEq] at hover
    exact hold _ hover
  refine ⟨fun m => ?_, fun m stage ask' hm hs => ?_, ?_, fun e he => ?_, fun m o hm => ?_⟩
  · rw [Table.get?_set]
    by_cases hmn : m = n
    · rw [if_pos hmn, hmn, hask]
      simp
    · rw [if_neg hmn]
      exact h.made m
  · rcases Table.get?_set_eq_some.mp hm with ⟨-, rfl⟩ | ⟨-, hm⟩
    · rcases hs with hs | hs <;> cases hs
    · exact h.unbegun m stage ask' hm hs
  · rw [List.map_append, List.nodup_append]
    refine ⟨h.distinct, by simp, fun a ha b hb => ?_⟩
    obtain ⟨e, he, rfl⟩ := List.mem_map.mp ha
    simp only [List.map_cons, List.map_nil, List.mem_singleton] at hb
    exact hb ▸ hnew e he
  · rcases List.mem_append.mp he with he | he
    · obtain ⟨ha, hover⟩ := h.recorded e he
      rw [Table.get?_set_of_ne _ _ (hnew e he)]
      exact ⟨ha, hover⟩
    · obtain rfl := List.mem_singleton.mp he
      exact ⟨hask, Table.get?_set_self ..⟩
  · rcases Table.get?_set_eq_some.mp hm with ⟨hmn, -⟩ | ⟨-, hm⟩
    · exact ⟨_, List.mem_append_right _ List.mem_cons_self, hmn.symm⟩
    · obtain ⟨e, he, hcall⟩ := h.complete m o hm
      exact ⟨e, List.mem_append_left _ he, hcall⟩

/-! ## Every run leaves a diary behind -/

/-- A run so far: the calls that are over fill a diary, whose last server is `before`, and the trace
is that diary together with what the call in the middle of something has done. -/
structure Chronicle (events : List Event) (c : Controller) (entries : List Entry)
    (before : Option ActiveServer) : Prop where
  roll : Roll events c.calls entries
  diary : Diary entries before
  atRest : (∀ n stage, c.calls.get? n = some stage → stage.midway = false) →
    c.server = before ∧ c.trace = entries.flatMap Entry.deeds
  atWork : ∀ n stage, c.calls.get? n = some stage → stage.midway = true →
    ∃ ask deeds, askOf events n = some ask ∧ Begun n ask before stage deeds ∧
      c.trace = entries.flatMap Entry.deeds ++ deeds

theorem Chronicle.initial : Chronicle [] {} [] none where
  roll :=
    { made := fun _ => Iff.intro (fun _ => rfl) fun _ => rfl
      unbegun := fun n stage ask hn => by simp [Table.get?] at hn
      distinct := List.nodup_nil
      recorded := fun e he => by cases he
      complete := fun n outcome hn => by simp [Table.get?] at hn }
  diary := .empty
  atRest _ := ⟨rfl, rfl⟩
  atWork n stage hn := by simp [Table.get?] at hn

theorem Books.rest_of_notActivated (hc : c.Books) (hp : c.phase = .notActivated) :
    (∀ n stage, c.calls.get? n = some stage → stage.midway = false) ∧ c.server = none := by
  have hrest : ∀ n stage, c.calls.get? n = some stage → stage.midway = false := by
    intro n stage hn
    cases hm : stage.midway with
    | false => rfl
    | true =>
      obtain ⟨-, hphase, -⟩ := (View.accounts_midway hm).mp (hc.atWork n stage hn hm)
      rw [show c.phase = stage.phase from hphase] at hp
      cases stage <;> cases hp
  refine ⟨hrest, ?_⟩
  obtain ⟨hphase, -⟩ := hc.atRest hrest
  rw [hp] at hphase
  cases hs : c.server with
  | none => rfl
  | some server => rw [hs] at hphase; cases hphase

/-- A call that is not in the middle of anything moves, and nothing is asked or answered. The server
before it may be that of a longer diary. -/
theorem Chronicle.move_outside {events' : List Event} {entries' : List Entry}
    (h : Chronicle events c entries before) (hroll : Roll events' c'.calls entries')
    (hdiary : Diary entries' before)
    (hdeeds : entries'.flatMap Entry.deeds = entries.flatMap Entry.deeds)
    (hasks : ∀ m ask, askOf events m = some ask → askOf events' m = some ask)
    (hn : ∀ stage, c.calls.get? n = some stage → stage.midway = false) (hs : stage'.midway = false)
    (hserver : c'.server = c.server) (htrace : c'.trace = c.trace)
    (hcalls : c'.calls = c.calls.set n stage') : Chronicle events' c' entries' before where
  roll := hroll
  diary := hdiary
  atRest hrest := by
    rw [hserver, htrace, hdeeds]
    refine h.atRest fun m stage hm => ?_
    by_cases hmn : m = n
    · exact hn stage (hmn ▸ hm)
    · exact hrest m stage (by rw [hcalls, Table.get?_set_of_ne _ _ hmn]; exact hm)
  atWork m stage hm hmid := by
    rw [hcalls] at hm
    rcases Table.get?_set_eq_some.mp hm with ⟨-, rfl⟩ | ⟨-, hm⟩
    · cases hs.symm.trans hmid
    · obtain ⟨ask, deeds, hask, hb, ht⟩ := h.atWork m stage hm hmid
      exact ⟨ask, deeds, hasks m ask hask, hb, by rw [htrace, hdeeds, ht]⟩

theorem askOf_mono (e : Event) (h : askOf events n = some ask) :
    askOf (events ++ [e]) n = some ask := by
  rw [askOf_snoc, h]
  rfl

theorem Chronicle.atOnce {outcome : Outcome} (hb : c.Books) (h : Chronicle events c entries before)
    (hout : c.answerAtOnce ask = some outcome) :
    Entry.Fits before ⟨n, ask, outcome, []⟩ before := by
  cases ask with
  | activateWith settings =>
    simp only [answerAtOnce] at hout
    split at hout
    · cases hout
    · rename_i e he
      obtain rfl := Option.some.inj hout
      exact .invalid (by rw [Ask.plan, he])
  | deactivateIfBusy =>
    simp only [answerAtOnce] at hout
    split at hout
    · rename_i hp
      obtain rfl := Option.some.inj hout
      obtain ⟨hrest, hserver⟩ := hb.rest_of_notActivated hp
      rw [← (h.atRest hrest).1, hserver]
      exact .notBusy
    · cases hout
  | activate | deactivate | session => cases hout

theorem Chronicle.advances {stage : Stage} (hb : c.Books) (h : Chronicle events c entries before)
    (hq : c.queue.head? = some n) (hn : c.calls.get? n = some stage)
    (ht : Turned c n stage c' deeds stage') :
    ∃ ask all, askOf events n = some ask ∧
      Advances n ask before ⟨c'.phase, c'.server, stage'⟩ all ∧
      c'.trace = entries.flatMap Entry.deeds ++ all := by
  have hturn := ht.turn
  cases hm : stage.midway with
  | true =>
    obtain ⟨ask, sofar, hask, hbegun, htrace⟩ := h.atWork n stage hn hm
    have hserver : c.server = none := ((View.accounts_midway hm).mp (hb.atWork n stage hn hm)).1
    rw [hserver] at hturn
    refine ⟨ask, sofar ++ deeds, hask, hturn.advances hbegun, ?_⟩
    rw [ht.trace, htrace, List.append_assoc]
  | false =>
    -- A call that holds the slot and is not in the middle of anything has just got it.
    obtain ⟨ask, rfl⟩ : ∃ ask, stage = .queued ask := by
      have := hturn.begins
      cases stage with
      | queued ask => exact ⟨ask, rfl⟩
      | probing | launching | connecting | opening | releasing | stopping | ending => cases hm
      | _ => cases this
    obtain ⟨hserver, htrace⟩ := h.atRest (hb.orderly.atRest hq hn hm)
    rw [hserver] at hturn
    refine ⟨ask, deeds, h.roll.unbegun n _ ask hn (.inr rfl), hturn.first, ?_⟩
    rw [ht.trace, htrace]

theorem Chronicle.turned {stage : Stage} (hb : c.Books) (h : Chronicle events c entries before)
    (he : ∀ m ask, e ≠ .call m ask) (hq : c.queue.head? = some n) (hn : c.calls.get? n = some stage)
    (ht : Turned c n stage c' deeds stage') :
    ∃ entries' before', Chronicle (events ++ [e]) c' entries' before' := by
  obtain ⟨ask, all, hask, hadv, htrace⟩ := h.advances hb hq hn ht
  have hself := ht.self
  have hothers : ∀ m stage, m ≠ n → c'.calls.get? m = some stage → stage.midway = false := by
    intro m stage hmn hm
    rw [ht.other hmn] at hm
    cases hmid : stage.midway with
    | false => rfl
    | true => exact absurd (hb.orderly.eq_holder hq hm hmid) hmn
  have hold : ∀ outcome, stage ≠ .over outcome := by
    rintro outcome rfl
    cases ht.turn.begins
  have hskip : ∀ m ask', e = .call m ask' → (c.calls.get? m).isSome = true :=
    fun m ask' heq => absurd heq (he m ask')
  have hroll := h.roll.skip hskip
  rcases hadv with ⟨-, hbegun⟩ | ⟨outcome, rfl, hfits⟩
  · have hmid : stage'.midway = true := by cases hbegun <;> rfl
    refine ⟨entries, before, ?_, h.diary, fun hrest => ?_, fun m st hm hmid' => ?_⟩
    · rw [ht.calls]
      refine hroll.move hn hold ?_ ?_
      · rintro outcome rfl
        cases hmid
      · rintro ask' (rfl | rfl) <;> cases hmid
    · rw [hrest n stage' hself] at hmid
      cases hmid
    · by_cases hmn : m = n
      · subst hmn
        rw [hself, Option.some.injEq] at hm
        subst hm
        exact ⟨ask, all, askOf_mono e hask, hbegun, htrace⟩
      · rw [hothers m st hmn hm] at hmid'
        cases hmid'
  · refine ⟨entries ++ [⟨n, ask, outcome, all⟩], c'.server, ?_, h.diary.entry hfits,
      fun _ => ⟨rfl, ?_⟩, fun m st hm hmid => ?_⟩
    · rw [ht.calls]
      exact hroll.finish hn hold (askOf_mono e hask)
    · rw [htrace, List.flatMap_append, List.flatMap_singleton]
    · by_cases hmn : m = n
      · rw [hmn, hself, Option.some.injEq] at hm
        rw [← hm] at hmid
        cases hmid
      · rw [hothers m st hmn hm] at hmid
        cases hmid

theorem Chronicle.change (hb : c.Books) (h : Chronicle events c entries before)
    (hch : Change c e c') (hkept : ∀ n, e ≠ .drop n) :
    ∃ entries' before', Chronicle (events ++ [e]) c' entries' before' := by
  cases hch with
  | nothing he =>
    refine ⟨entries, before, h.roll.skip he, h.diary, h.atRest, fun n stage hn hm => ?_⟩
    obtain ⟨ask, deeds, hask, hrest⟩ := h.atWork n stage hn hm
    exact ⟨ask, deeds, askOf_mono e hask, hrest⟩
  | called hn =>
    exact ⟨entries, before, h.move_outside (h.roll.call hn) h.diary rfl
      (fun m ask' hask => askOf_mono _ hask) (fun stage hs => by rw [hn] at hs; cases hs) rfl rfl
      rfl rfl⟩
  | @atOnce n ask outcome hn hout =>
    have hroll := h.roll.skip (e := .step n) fun m ask' heq => by cases heq
    have hroll' : Roll (events ++ [.step n]) (c.move n (.over outcome)).calls
        (entries ++ [⟨n, ask, outcome, []⟩]) :=
      hroll.finish hn (fun o heq => by cases heq) (hroll.unbegun n _ ask hn (.inl rfl))
    refine ⟨_, before, h.move_outside hroll' (h.diary.entry (h.atOnce hb hout)) ?_
      (fun m ask' hask' => askOf_mono _ hask') (fun stage hs => ?_) rfl rfl rfl rfl⟩
    · rw [List.flatMap_append, List.flatMap_singleton, List.append_nil]
    · rw [hn, Option.some.injEq] at hs
      exact hs ▸ rfl
  | @joined n ask hn =>
    have hroll := h.roll.skip (e := .step n) fun m ask' heq => by cases heq
    have hask := hroll.unbegun n _ ask hn (.inl rfl)
    refine ⟨entries, before, h.move_outside (hroll.move hn (fun o heq => by cases heq)
      (fun o heq => by cases heq) ?_) h.diary rfl (fun m ask' hask' => askOf_mono _ hask')
      (fun stage hs => ?_) rfl rfl rfl rfl⟩
    · rintro ask' (heq | heq)
      · cases heq
      · rw [← Stage.queued.inj heq, hask]
    · rw [hn, Option.some.injEq] at hs
      exact hs ▸ rfl
  | turned he hn hq ht => exact h.turned hb he hq hn ht
  | dropped hn hs => exact absurd rfl (hkept _)

theorem run_chronicle (hkept : ∀ n, Event.drop n ∉ events) :
    ∃ entries before, Chronicle events (run {} events) entries before := by
  refine (run_induction (P := fun es c => c.Books ∧ ∃ entries before, Chronicle es c entries before)
    ⟨Books.initial, [], none, Chronicle.initial⟩ fun es e c he h => ?_).2
  obtain ⟨hb, entries, before, hch⟩ := h
  have hc := apply_change hb.orderly e
  have hne : ∀ n, e ≠ .drop n := fun n heq => hkept n (heq ▸ he)
  exact ⟨hb.change hc hne, hch.change hb hc hne⟩

/-- **The trace of finished calls is a diary.** After a run without dropped calls in which every
call is over, the trace is what the entries of a diary have done, one entry for each call that was
made, in the order in which they were over. So launches and kills balance up to the process of the
active server, nobody launches or ends anything but for a plan that has a command, and the phase
says whether there is an active server. -/
theorem trace_is_a_diary (events : List Event) (hkept : ∀ n, Event.drop n ∉ events)
    (hdone : ∀ n stage, (run {} events).calls.get? n = some stage →
      ∃ outcome, stage = .over outcome) :
    let c := run {} events
    (∃ entries, Diary entries c.server ∧ c.trace = entries.flatMap Entry.deeds ∧
      (entries.map Entry.call).Nodup ∧
      (∀ e ∈ entries, askOf events e.call = some e.ask ∧ c.outcomeOf e.call = some e.outcome) ∧
      ∀ n ask, askOf events n = some ask → ∃ e ∈ entries, e.call = n) ∧
    c.trace.countP Deed.isStart = c.trace.countP Deed.isKill +
      (if c.server.any (·.launched) then 1 else 0) ∧
    (∀ n command, .asked n (.launch command) ∈ c.trace → ∃ ask plan,
      askOf events n = some ask ∧ ask.plan = some (.ok plan) ∧ plan.command = some command) ∧
    (∀ n p, .asked n (.kill p) ∈ c.trace → ∃ ask plan,
      askOf events p = some ask ∧ ask.plan = some (.ok plan) ∧ plan.command.isSome = true) ∧
    c.phase = (if c.server.isSome then .activated else .notActivated) := by
  intro c
  have hb : c.Books := run_books Books.initial hkept
  obtain ⟨entries, before, hch⟩ := run_chronicle hkept
  have hrest : ∀ n stage, c.calls.get? n = some stage → stage.midway = false := by
    intro n stage hn
    obtain ⟨outcome, rfl⟩ := hdone n stage hn
    rfl
  obtain ⟨hserver, htrace⟩ := hch.atRest hrest
  have hdiary : Diary entries c.server := by rw [hserver]; exact hch.diary
  refine ⟨⟨entries, hdiary, htrace, hch.roll.distinct, fun e he => ?_, fun n ask hask => ?_⟩, ?_,
    fun n command hmem => ?_, fun n p hmem => ?_, ?_⟩
  · obtain ⟨hask, hover⟩ := hch.roll.recorded e he
    exact ⟨hask, outcomeOf_eq_some.mpr hover⟩
  · cases hn : c.calls.get? n with
    | none =>
      rw [(hch.roll.made n).mpr hn] at hask
      cases hask
    | some stage =>
      obtain ⟨outcome, rfl⟩ := hdone n stage hn
      exact hch.roll.complete n outcome hn
  · rw [htrace]
    exact hdiary.balance
  · rw [htrace] at hmem
    obtain ⟨e, he, rfl, plan, hplan⟩ := hdiary.planned.1 n command hmem
    exact ⟨e.ask, plan, (hch.roll.recorded e he).1, hplan⟩
  · rw [htrace] at hmem
    obtain ⟨e, he, rfl, plan, hplan⟩ := hdiary.planned.2 n p hmem
    exact ⟨e.ask, plan, (hch.roll.recorded e he).1, hplan⟩
  · rw [(hb.atRest hrest).1]
    cases c.server <;> rfl

/-- Five calls, one after the other: a server is launched and nobody can connect to it, another one
is joined, a second activation is turned away, and of two deactivations the second finds nothing. -/
def visits : List Event :=
  let managed := ActivationPlan.managed ⟨"server", ["lsp", "-p=9257"], none, .detached⟩
    (.socket "127.0.0.1" 9257)
  [.call 0 (.activate managed), .step 0, .step 0, .answer 0 (.probed (.ok false)),
    .answer 0 (.launched (.ok ())), .answer 0 (.connected (.error (.serverExited ⟨some 1⟩))),
    .answer 0 (.killed .exited),
    .call 1 (.activate (.attached "127.0.0.1" 9257)), .step 1, .step 1,
    .answer 1 (.connected (.ok ())), .answer 1 (.opened (.ok ())),
    .call 2 (.activate managed), .step 2, .step 2,
    .call 3 .deactivate, .step 3, .step 3, .answer 3 (.stopped (.ok ()) .stopped),
    .call 4 .deactivate, .step 4, .step 4]

theorem visits_are_a_diary :
    (∀ n, Event.drop n ∉ visits) ∧
    (∀ n stage, (run {} visits).calls.get? n = some stage → ∃ outcome, stage = .over outcome) ∧
    (∃ entries, Diary entries none ∧ (run {} visits).trace = entries.flatMap Entry.deeds) ∧
    (run {} visits).trace.countP Deed.isStart = 1 ∧
    (run {} visits).trace.countP Deed.isKill = 1 := by
  have hkept : ∀ n, Event.drop n ∉ visits := by simp [visits]
  have hdone : ∀ n stage, (run {} visits).calls.get? n = some stage →
      ∃ outcome, stage = .over outcome := by
    intro n stage hn
    have hall : ∀ e ∈ (run {} visits).calls.entries, ∃ outcome, e.2 = .over outcome := by
      rw [show (run {} visits).calls.entries =
        [(0, .over (.refused (.connect (.serverExited ⟨some 1⟩)))), (1, .over .activated),
          (2, .over (.refused .alreadyActive)), (3, .over (.deactivated ⟨true, none, none⟩)),
          (4, .over (.deactivated .idle))] from rfl]
      simp
    exact hall (n, stage) (Table.mem_of_get? hn)
  obtain ⟨⟨entries, hdiary, htrace, -⟩, -⟩ := trace_is_a_diary visits hkept hdone
  exact ⟨hkept, hdone, ⟨entries, hdiary, htrace⟩, rfl, rfl⟩

end Controller

end LanguageClient.Activation
