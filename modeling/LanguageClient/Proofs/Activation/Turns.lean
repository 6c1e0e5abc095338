import LanguageClient.Activation.Controller
import LanguageClient.Proofs.Table

/-!
# What one event does to a controller

`Controller.apply` is a function of the whole controller, but an event touches little of it: one
call moves, something is asked or answered, everything else stays. This file says so once, and
everything that is proved about runs is proved from it.

`Turn` lists the moves of the call that holds the slot, as steps between *views*: what the call sees
is the phase, the server, and its own stage. `Change` lists what an event can make of a controller,
and its main case is a turn of the holder. **`apply_change`** is the inversion theorem: an event
makes nothing of a controller that `Change` does not list. It needs to know that only the holder of
the slot is in the middle of anything; that is the queue discipline `Orderly`, which every change
keeps (`Orderly.change`).
-/

namespace LanguageClient.Activation

/-- The plan that an ask wants carried out, or why there is none; nothing for asks that do not want
a server brought up. -/
def Ask.plan : Ask → Option (Except ActivationError ActivationPlan)
  | .activate plan => some (.ok plan)
  | .activateWith settings => some (ActivationPlan.ofSettings settings)
  | .deactivate | .deactivateIfBusy | .session => none

def Ask.windsDown : Ask → Bool
  | .deactivate | .deactivateIfBusy => true
  | .activate _ | .activateWith _ | .session => false

/-- Whether a call at a stage is in the middle of bringing a server up or winding one down. -/
def Stage.midway : Stage → Bool
  | .fresh _ | .queued _ | .over _ | .dropped => false
  | _ => true

def Stage.wantsSlot : Stage → Bool
  | .fresh _ | .over _ | .dropped => false
  | _ => true

def stopError : Except SessionError Unit → Option SessionError
  | .ok _ => none
  | .error e => some e

/-- What the call that holds the slot sees of the controller. -/
structure View where
  phase : ActivationPhase
  server : Option ActiveServer
  stage : Stage

/-! ## The moves of the holder

All that is done to a server is done by the holder of the slot. It is enough to look at what the
holder sees. -/

/-- One move of call `n` while it holds the slot, with what it asks and hears. -/
inductive Turn (n : Nat) : View → List Deed → View → Prop where
  -- Beginnings that end at once.
  | alreadyActive {phase : ActivationPhase} {server : ActiveServer} {ask : Ask}
      {plan : ActivationPlan} (hask : ask.plan = some (.ok plan)) :
      Turn n ⟨phase, some server, .queued ask⟩ []
        ⟨phase, some server, .over (.refused .alreadyActive)⟩
  | invalid {phase : ActivationPhase} {server : Option ActiveServer} {ask : Ask}
      {e : ActivationError} (hask : ask.plan = some (.error e)) :
      Turn n ⟨phase, server, .queued ask⟩ [] ⟨phase, server, .over (.refused e)⟩
  | idle {phase : ActivationPhase} {ask : Ask} (hask : ask.windsDown = true) :
      Turn n ⟨phase, none, .queued ask⟩ [] ⟨phase, none, .over (.deactivated .idle)⟩
  | found {phase : ActivationPhase} {server : Option ActiveServer} :
      Turn n ⟨phase, server, .queued .session⟩ []
        ⟨phase, server, .over (.found (server.map (·.owner)))⟩
  -- Beginnings that ask something.
  | attach {phase : ActivationPhase} {ask : Ask} {plan : ActivationPlan}
      (hask : ask.plan = some (.ok plan)) (hcmd : plan.command = none) :
      Turn n ⟨phase, none, .queued ask⟩ [.asked n (.connect plan.transport false)]
        ⟨.activating, none, .connecting plan⟩
  | probe {phase : ActivationPhase} {ask : Ask} {plan : ActivationPlan} {command : ServerCommand}
      (hask : ask.plan = some (.ok plan)) (hcmd : plan.command = some command)
      (hkind : plan.transport.kind = .socket) :
      Turn n ⟨phase, none, .queued ask⟩ [.asked n (.probe plan.transport)]
        ⟨.activating, none, .probing plan⟩
  | launch {phase : ActivationPhase} {ask : Ask} {plan : ActivationPlan} {command : ServerCommand}
      (hask : ask.plan = some (.ok plan)) (hcmd : plan.command = some command)
      (hkind : plan.transport.kind = .stdio) :
      Turn n ⟨phase, none, .queued ask⟩ [.asked n (.launch command)]
        ⟨.activating, none, .launching plan command⟩
  | stop {phase : ActivationPhase} {server : ActiveServer} {ask : Ask}
      (hask : ask.windsDown = true) :
      Turn n ⟨phase, some server, .queued ask⟩ [.asked n (.stopSession server.owner)]
        ⟨.deactivating, none, .stopping server⟩
  -- Bringing up: the endpoint and the process.
  | unprobed {phase : ActivationPhase} {server : Option ActiveServer} {plan : ActivationPlan}
      (e : ConnectError) :
      Turn n ⟨phase, server, .probing plan⟩ [.answered n (.probed (.error e))]
        ⟨.notActivated, server, .over (.refused (.connect e))⟩
  | held {phase : ActivationPhase} {server : Option ActiveServer} {plan : ActivationPlan} :
      Turn n ⟨phase, server, .probing plan⟩ [.answered n (.probed (.ok true))]
        ⟨.notActivated, server, .over (.refused (.portInUse plan.transport.text))⟩
  | free {phase : ActivationPhase} {server : Option ActiveServer} {plan : ActivationPlan}
      {command : ServerCommand} (hcmd : plan.command = some command) :
      Turn n ⟨phase, server, .probing plan⟩
        [.answered n (.probed (.ok false)), .asked n (.launch command)]
        ⟨phase, server, .launching plan command⟩
  | freeAttached {phase : ActivationPhase} {server : Option ActiveServer} {plan : ActivationPlan}
      (hcmd : plan.command = none) :
      Turn n ⟨phase, server, .probing plan⟩
        [.answered n (.probed (.ok false)), .asked n (.connect plan.transport false)]
        ⟨phase, server, .connecting plan⟩
  | unlaunched {phase : ActivationPhase} {server : Option ActiveServer} {plan : ActivationPlan}
      {command : ServerCommand} (e : LaunchError) :
      Turn n ⟨phase, server, .launching plan command⟩ [.answered n (.launched (.error e))]
        ⟨.notActivated, server, .over (.refused (.launch e))⟩
  | launched {phase : ActivationPhase} {server : Option ActiveServer} {plan : ActivationPlan}
      {command : ServerCommand} :
      Turn n ⟨phase, server, .launching plan command⟩
        [.answered n (.launched (.ok ())),
          .asked n (.connect plan.transport plan.command.isSome)]
        ⟨phase, server, .connecting plan⟩
  -- Bringing up: the stream and the session. A failure ends the process first, if there is one.
  | unconnected {phase : ActivationPhase} {server : Option ActiveServer} {plan : ActivationPlan}
      (e : ConnectError) (hcmd : plan.command = none) :
      Turn n ⟨phase, server, .connecting plan⟩ [.answered n (.connected (.error e))]
        ⟨.notActivated, server, .over (.refused (.connect e))⟩
  | unconnectedRelease {phase : ActivationPhase} {server : Option ActiveServer}
      {plan : ActivationPlan} (e : ConnectError) (hcmd : plan.command.isSome = true) :
      Turn n ⟨phase, server, .connecting plan⟩
        [.answered n (.connected (.error e)), .asked n (.kill n)]
        ⟨phase, server, .releasing (.connect e)⟩
  | connected {phase : ActivationPhase} {server : Option ActiveServer} {plan : ActivationPlan} :
      Turn n ⟨phase, server, .connecting plan⟩
        [.answered n (.connected (.ok ())), .asked n (.openSession plan.filter)]
        ⟨phase, server, .opening plan⟩
  | unopened {phase : ActivationPhase} {server : Option ActiveServer} {plan : ActivationPlan}
      (e : SessionError) (hcmd : plan.command = none) :
      Turn n ⟨phase, server, .opening plan⟩ [.answered n (.opened (.error e))]
        ⟨.notActivated, server, .over (.refused (.session e))⟩
  | unopenedRelease {phase : ActivationPhase} {server : Option ActiveServer}
      {plan : ActivationPlan} (e : SessionError) (hcmd : plan.command.isSome = true) :
      Turn n ⟨phase, server, .opening plan⟩
        [.answered n (.opened (.error e)), .asked n (.kill n)]
        ⟨phase, server, .releasing (.session e)⟩
  | opened {phase : ActivationPhase} {server : Option ActiveServer} {plan : ActivationPlan} :
      Turn n ⟨phase, server, .opening plan⟩ [.answered n (.opened (.ok ()))]
        ⟨.activated, some ⟨n, plan.command.isSome⟩, .over .activated⟩
  | released {phase : ActivationPhase} {server : Option ActiveServer} {e : ActivationError}
      (outcome : Termination) :
      Turn n ⟨phase, server, .releasing e⟩ [.answered n (.killed outcome)]
        ⟨.notActivated, server, .over (.refused e)⟩
  -- Winding down.
  | stopped {phase : ActivationPhase} {server : Option ActiveServer} {old : ActiveServer}
      (result : Except SessionError Unit) (state : SessionState) (hown : old.launched = false) :
      Turn n ⟨phase, server, .stopping old⟩ [.answered n (.stopped result state)]
        ⟨.notActivated, server, .over (.deactivated
          { sessionStopped := state == .stopped, sessionError := stopError result })⟩
  | stoppedEnding {phase : ActivationPhase} {server : Option ActiveServer} {old : ActiveServer}
      (result : Except SessionError Unit) (state : SessionState) (hown : old.launched = true) :
      Turn n ⟨phase, server, .stopping old⟩
        [.answered n (.stopped result state), .asked n (.kill old.owner)]
        ⟨phase, server, .ending old (state == .stopped) (stopError result)⟩
  | ended {phase : ActivationPhase} {server : Option ActiveServer} {old : ActiveServer}
      {stopped : Bool} {error : Option SessionError} (outcome : Termination) :
      Turn n ⟨phase, server, .ending old stopped error⟩ [.answered n (.killed outcome)]
        ⟨.notActivated, server, .over (.deactivated
          { sessionStopped := stopped, sessionError := error, termination := some outcome })⟩

theorem Turn.ends {n : Nat} {v v' : View} {deeds : List Deed} (h : Turn n v deeds v') :
    v'.stage.midway = true ∨ ∃ outcome, v'.stage = .over outcome := by
  cases h with
  | attach | probe | launch | stop | free | freeAttached | launched | unconnectedRelease |
    connected | unopenedRelease | stoppedEnding => exact .inl rfl
  | _ => exact .inr ⟨_, rfl⟩

namespace Controller

/-- A turn of call `n`, from a stage to a stage, and what it leaves of the controller around it. A
call that is no longer midway has handed the slot back. -/
structure Turned (c : Controller) (n : Nat) (stage : Stage) (c' : Controller)
    (deeds : List Deed) (stage' : Stage) : Prop where
  turn : Turn n ⟨c.phase, c.server, stage⟩ deeds ⟨c'.phase, c'.server, stage'⟩
  calls : c'.calls = c.calls.set n stage'
  queue : c'.queue = if stage'.midway then c.queue else c.queue.filter (· != n)
  trace : c'.trace = c.trace ++ deeds

variable {c c' : Controller} {n : Nat} {ask : Ask} {stage : Stage} {a : Answer}

section Turned

variable {deeds : List Deed} {stage' : Stage} (ht : Turned c n stage c' deeds stage')
include ht

theorem Turned.self : c'.calls.get? n = some stage' := by rw [ht.calls, Table.get?_set_self]

theorem Turned.other {m : Nat} (hm : m ≠ n) : c'.calls.get? m = c.calls.get? m := by
  rw [ht.calls, Table.get?_set_of_ne _ _ hm]

end Turned

theorem activate_turned {plan : ActivationPlan} (hask : ask.plan = some (.ok plan)) :
    ∃ deeds stage', Turned c n (.queued ask) (c.activate n plan) deeds stage' := by
  unfold activate
  cases hs : c.server with
  | some server =>
    have ht : Turn n ⟨c.phase, c.server, .queued ask⟩ []
        ⟨c.phase, c.server, .over (.refused .alreadyActive)⟩ := by
      rw [hs]
      exact .alreadyActive hask
    exact ⟨_, _, ht, rfl, rfl, (List.append_nil _).symm⟩
  | none =>
    simp only [bringUp]
    cases hcmd : plan.command with
    | none =>
      have ht : Turn n ⟨c.phase, c.server, .queued ask⟩ [.asked n (.connect plan.transport false)]
          ⟨.activating, c.server, .connecting plan⟩ := by
        rw [hs]
        exact .attach hask hcmd
      refine ⟨_, _, ht, rfl, rfl, ?_⟩
      simp only [await, requestAt, hcmd, Option.isSome_none]
      rfl
    | some command =>
      cases hkind : plan.transport.kind with
      | socket =>
        have ht : Turn n ⟨c.phase, c.server, .queued ask⟩ [.asked n (.probe plan.transport)]
            ⟨.activating, c.server, .probing plan⟩ := by
          rw [hs]
          exact .probe hask hcmd hkind
        exact ⟨_, _, ht, rfl, rfl, rfl⟩
      | stdio =>
        have ht : Turn n ⟨c.phase, c.server, .queued ask⟩ [.asked n (.launch command)]
            ⟨.activating, c.server, .launching plan command⟩ := by
          rw [hs]
          exact .launch hask hcmd hkind
        exact ⟨_, _, ht, rfl, rfl, rfl⟩

theorem deactivate_turned (hask : ask.windsDown = true) :
    ∃ deeds stage', Turned c n (.queued ask) (c.deactivate n) deeds stage' := by
  unfold deactivate
  cases hs : c.server with
  | none =>
    have ht : Turn n ⟨c.phase, c.server, .queued ask⟩ []
        ⟨c.phase, c.server, .over (.deactivated .idle)⟩ := by
      rw [hs]
      exact .idle hask
    exact ⟨_, _, ht, rfl, rfl, (List.append_nil _).symm⟩
  | some server =>
    have ht : Turn n ⟨c.phase, c.server, .queued ask⟩ [.asked n (.stopSession server.owner)]
        ⟨.deactivating, none, .stopping server⟩ := by
      rw [hs]
      exact .stop hask
    exact ⟨_, _, ht, rfl, rfl, rfl⟩

theorem begin_turned (c : Controller) (n : Nat) (ask : Ask) :
    ∃ deeds stage', Turned c n (.queued ask) (c.begin n ask) deeds stage' := by
  cases ask with
  | activate plan => exact activate_turned rfl
  | activateWith settings =>
    have hask : (Ask.activateWith settings).plan = some (ActivationPlan.ofSettings settings) := rfl
    simp only [begin]
    cases hp : ActivationPlan.ofSettings settings with
    | ok plan => exact activate_turned (hp ▸ hask)
    | error e => exact ⟨_, _, .invalid (hp ▸ hask), rfl, rfl, (List.append_nil _).symm⟩
  | deactivate => exact deactivate_turned rfl
  | deactivateIfBusy => exact deactivate_turned rfl
  | session => exact ⟨_, _, .found, rfl, rfl, (List.append_nil _).symm⟩

/-- What a controller makes of an answer before the call goes on: it writes the answer down. -/
def heard (c : Controller) (n : Nat) (a : Answer) : Controller :=
  { c with trace := c.trace ++ [.answered n a] }

theorem release_turned {plan : ActivationPlan} {e : ActivationError}
    (hover : plan.command = none → Turn n ⟨c.phase, c.server, stage⟩ [.answered n a]
      ⟨.notActivated, c.server, .over (.refused e)⟩)
    (hkill : plan.command.isSome = true → Turn n ⟨c.phase, c.server, stage⟩
      [.answered n a, .asked n (.kill n)] ⟨c.phase, c.server, .releasing e⟩) :
    ∃ deeds stage', Turned c n stage
      ((c.heard n a).release n plan e) deeds stage' := by
  unfold release
  cases hcmd : plan.command with
  | none => exact ⟨_, _, hover hcmd, rfl, rfl, rfl⟩
  | some command =>
    refine ⟨_, _, hkill (by rw [hcmd]; rfl), rfl, rfl, ?_⟩
    exact List.append_assoc _ _ _

theorem resume_turned (h : (c.heard n a).resume n stage a = some c') :
    ∃ deeds stage', Turned c n stage c' deeds stage' := by
  have happ : ∀ d d' : Deed, (c.trace ++ [d]) ++ [d'] = c.trace ++ [d, d'] := fun d d' => by simp
  unfold resume at h
  split at h
  · rename_i plan result
    split at h <;> obtain rfl := Option.some.inj h
    · exact ⟨_, _, .unprobed _, rfl, rfl, rfl⟩
    · exact ⟨_, _, .held, rfl, rfl, rfl⟩
    · rename_i hcmd
      exact ⟨_, _, .free hcmd, rfl, rfl, happ _ _⟩
    · rename_i hcmd
      refine ⟨_, _, .freeAttached hcmd, rfl, rfl, ?_⟩
      simp only [await, requestAt, hcmd, Option.isSome_none]
      exact happ _ _
  · rename_i plan command result
    split at h <;> obtain rfl := Option.some.inj h
    · exact ⟨_, _, .unlaunched _, rfl, rfl, rfl⟩
    · exact ⟨_, _, .launched, rfl, rfl, happ _ _⟩
  · rename_i plan result
    split at h <;> obtain rfl := Option.some.inj h
    · exact release_turned (.unconnected _) (.unconnectedRelease _)
    · exact ⟨_, _, .connected, rfl, rfl, happ _ _⟩
  · rename_i plan result
    split at h <;> obtain rfl := Option.some.inj h
    · exact release_turned (.unopened _) (.unopenedRelease _)
    · exact ⟨_, _, .opened, rfl, rfl, rfl⟩
  · obtain rfl := Option.some.inj h
    exact ⟨_, _, .released _, rfl, rfl, rfl⟩
  · rename_i server result state
    obtain rfl := Option.some.inj h
    unfold sessionStopped
    cases hown : server.launched with
    | true => cases result <;> exact ⟨_, _, .stoppedEnding _ state hown, rfl, rfl, happ _ _⟩
    | false => cases result <;> exact ⟨_, _, .stopped _ state hown, rfl, rfl, rfl⟩
  · obtain rfl := Option.some.inj h
    exact ⟨_, _, .ended _, rfl, rfl, rfl⟩
  · exact absurd h (by simp)

/-! ## What an event can do

Every invariant of the controller is shown from `Change`, and the step functions are opened only
here. -/

/-- What an event can make of a controller. An event that finds nothing to do is not a call under a
new number. -/
inductive Change (c : Controller) : Event → Controller → Prop where
  | nothing {e : Event} (he : ∀ n ask, e = .call n ask → (c.calls.get? n).isSome = true) :
      Change c e c
  | called {n : Nat} {ask : Ask} (hn : c.calls.get? n = none) :
      Change c (.call n ask) (c.move n (.fresh ask))
  | atOnce {n : Nat} {ask : Ask} {outcome : Outcome} (hn : c.calls.get? n = some (.fresh ask))
      (ho : c.answerAtOnce ask = some outcome) : Change c (.step n) (c.move n (.over outcome))
  | joined {n : Nat} {ask : Ask} (hn : c.calls.get? n = some (.fresh ask)) :
      Change c (.step n) ((c.joinQueue n).move n (.queued ask))
  | turned {e : Event} {n : Nat} {stage stage' : Stage} {c' : Controller} {deeds : List Deed}
      (he : ∀ m ask, e ≠ .call m ask) (hn : c.calls.get? n = some stage)
      (hq : c.queue.head? = some n) (ht : Turned c n stage c' deeds stage')
      (hdrop : ∀ m, e ≠ .drop m) : Change c e c'
  | dropped {n : Nat} {stage : Stage} (hn : c.calls.get? n = some stage)
      (hs : ∀ outcome, stage ≠ .over outcome) :
      Change c (.drop n) ((c.leaveQueue n).move n .dropped)

/-- The queue discipline: exactly the calls that want the slot are in the queue, each once, and only
the first of them may be in the middle of anything. -/
structure Orderly (c : Controller) : Prop where
  distinct : c.queue.Nodup
  wanted : ∀ n, n ∈ c.queue ↔ ∃ stage, c.calls.get? n = some stage ∧ stage.wantsSlot = true
  working : ∀ n stage, c.calls.get? n = some stage → stage.midway = true →
    c.queue.head? = some n

theorem Orderly.eq_holder (hc : c.Orderly) {m : Nat} (hq : c.queue.head? = some n)
    (hm : c.calls.get? m = some stage) (hmid : stage.midway = true) : m = n :=
  Option.some.inj ((hc.working m stage hm hmid).symm.trans hq)

/-- As long as the holder of the slot is not in the middle of anything, nobody is. -/
theorem Orderly.atRest (hc : c.Orderly) (hq : c.queue.head? = some n)
    (hn : c.calls.get? n = some stage) (hs : stage.midway = false) (m : Nat) (st : Stage)
    (hm : c.calls.get? m = some st) : st.midway = false := by
  cases hmid : st.midway with
  | false => rfl
  | true =>
    obtain rfl := hc.eq_holder hq hm hmid
    obtain rfl := Option.some.inj (hn.symm.trans hm)
    exact hmid.symm.trans hs

theorem holdsSlot_iff :
    c.holdsSlot n = true ↔ c.queue.head? = some n := by
  simp [holdsSlot]

theorem calls_move (c : Controller) (n : Nat) (stage : Stage) (m : Nat) :
    (c.move n stage).calls.get? m = if m = n then some stage else c.calls.get? m :=
  Table.get?_set _ _ _ _

theorem step_change (c : Controller) (n : Nat) : Change c (.step n) ((c.step n).getD c) := by
  have hidle : Change c (.step n) c := .nothing fun m ask h => by cases h
  unfold step
  split
  · rename_i ask hn
    split
    · rename_i outcome ho
      exact .atOnce hn ho
    · exact .joined hn
  · rename_i ask hn
    split
    · rename_i hq
      obtain ⟨deeds, stage', ht⟩ := begin_turned c n ask
      exact .turned (fun m ask h => by cases h) hn (holdsSlot_iff.mp hq) ht fun m h => by cases h
    · exact hidle
  · exact hidle

theorem answer_eq (c : Controller) (n : Nat) (a : Answer) :
    c.answer n a = match c.calls.get? n with
      | none => c
      | some stage => ((c.heard n a).resume n stage a).getD c := rfl

theorem resume_midway (h : c.resume n stage a = some c') : stage.midway = true := by
  cases stage with
  | probing | launching | connecting | opening | releasing | stopping | ending => rfl
  | _ => simp [resume] at h

theorem answer_change (hc : c.Orderly) (n : Nat) (a : Answer) :
    Change c (.answer n a) (c.answer n a) := by
  have hidle : Change c (.answer n a) c := .nothing fun m ask h => by cases h
  rw [answer_eq]
  split
  · exact hidle
  · rename_i stage hn
    cases hr : (c.heard n a).resume n stage a with
    | none => exact hidle
    | some c' =>
      obtain ⟨deeds, stage', ht⟩ := resume_turned hr
      have hq := hc.working n stage hn (resume_midway hr)
      exact .turned (fun m ask h => by cases h) hn hq ht fun m h => by cases h

theorem drop_change (c : Controller) (n : Nat) : Change c (.drop n) (c.drop n) := by
  unfold drop
  split
  · exact .nothing fun m ask h => by cases h
  · exact .nothing fun m ask h => by cases h
  · rename_i stage hs hn
    exact .dropped hn hs

/-- **The inversion theorem**: `Change` lists everything that an event can do. -/
theorem apply_change (hc : c.Orderly) (e : Event) : Change c e (c.apply e) := by
  cases e with
  | call n ask =>
    simp only [apply]
    split
    · rename_i stage hn
      refine .nothing fun m ask' h => ?_
      obtain ⟨rfl, rfl⟩ := Event.call.inj h
      rw [hn]
      rfl
    · rename_i hn
      exact .called hn
  | step n => exact step_change c n
  | answer n a => exact answer_change hc n a
  | drop n => exact drop_change c n

/-! ## Every change keeps the queue in order -/

theorem Stage.wantsSlot_of_midway (h : stage.midway = true) :
    stage.wantsSlot = true := by
  cases stage with
  | probing | launching | connecting | opening | releasing | stopping | ending => rfl
  | _ => cases h

theorem Orderly.initial : Orderly {} where
  distinct := List.nodup_nil
  wanted n := by simp [Table.get?]
  working n stage hn := by simp [Table.get?] at hn

/-- A call that does not want the slot moves to a stage at which it does not want it either. -/
theorem Orderly.move_outside (hc : c.Orderly)
    (hn : ∀ old, c.calls.get? n = some old → old.wantsSlot = false) (hs : stage.wantsSlot = false) :
    (c.move n stage).Orderly where
  distinct := hc.distinct
  wanted m := by
    rw [show (c.move n stage).queue = c.queue from rfl, hc.wanted m, calls_move]
    by_cases hm : m = n
    · subst hm
      simp only [if_true, Option.some.injEq, exists_eq_left', hs]
      constructor
      · rintro ⟨old, hold, hw⟩
        rw [hn old hold] at hw
        exact hw
      · intro h
        exact absurd h (by simp)
    · simp only [if_neg hm]
  working m stage' hm hmid := by
    rcases Table.get?_set_eq_some.mp hm with ⟨-, rfl⟩ | ⟨-, hm⟩
    · rw [Stage.wantsSlot_of_midway hmid] at hs
      exact absurd hs (by simp)
    · exact hc.working m stage' hm hmid

theorem Orderly.join (hc : c.Orderly) (hn : c.calls.get? n = some (.fresh ask)) :
    ((c.joinQueue n).move n (.queued ask)).Orderly where
  distinct := by
    have hout : n ∉ c.queue := by
      rw [hc.wanted n]
      rintro ⟨stage, hs, hw⟩
      rw [hn, Option.some.injEq] at hs
      subst hs
      exact absurd hw (by simp [Stage.wantsSlot])
    show (c.queue ++ [n]).Nodup
    rw [List.nodup_append]
    refine ⟨hc.distinct, by simp, fun a ha b hb => ?_⟩
    rintro rfl
    rw [List.mem_singleton] at hb
    exact hout (hb ▸ ha)
  wanted m := by
    rw [show ((c.joinQueue n).move n (.queued ask)).queue = c.queue ++ [n] from rfl,
      List.mem_append, List.mem_singleton, hc.wanted m, calls_move]
    by_cases hm : m = n
    · simp [hm, Stage.wantsSlot]
    · simp only [hm, or_false, if_false]
      exact Iff.rfl
  working m stage hm hmid := by
    rcases Table.get?_set_eq_some.mp hm with ⟨-, rfl⟩ | ⟨-, hm⟩
    · exact absurd hmid (by simp [Stage.midway])
    · show (c.queue ++ [n]).head? = some m
      rw [List.head?_append, hc.working m stage hm hmid]
      rfl

theorem Orderly.leave (hc : c.Orderly) {stage' : Stage} (hn : stage'.wantsSlot = false)
    (hcalls : c'.calls = c.calls.set n stage') (hqueue : c'.queue = c.queue.filter (· != n)) :
    c'.Orderly where
  distinct := hqueue ▸ hc.distinct.filter _
  wanted m := by
    rw [hqueue, hcalls, Table.get?_set, List.mem_filter, hc.wanted m]
    by_cases hm : m = n
    · simp [hm, hn]
    · simp [hm]
  working m stage hm hmid := by
    rw [hcalls] at hm
    rcases Table.get?_set_eq_some.mp hm with ⟨-, rfl⟩ | ⟨h, hm⟩
    · rw [Stage.wantsSlot_of_midway hmid] at hn
      exact absurd hn (by simp)
    · have hq := hc.working m stage hm hmid
      rw [hqueue]
      cases hl : c.queue with
      | nil => simp [hl] at hq
      | cons x rest =>
        rw [hl, List.head?_cons, Option.some.injEq] at hq
        subst hq
        simp [h]

theorem Orderly.go_on (hc : c.Orderly) {stage' : Stage} (hq : c.queue.head? = some n)
    (hmid : stage'.midway = true) (hcalls : c'.calls = c.calls.set n stage')
    (hqueue : c'.queue = c.queue) : c'.Orderly where
  distinct := hqueue ▸ hc.distinct
  wanted m := by
    rw [hqueue, hcalls, Table.get?_set]
    by_cases hm : m = n
    · subst hm
      simp [List.mem_of_head? hq, Stage.wantsSlot_of_midway hmid]
    · rw [if_neg hm]
      exact hc.wanted m
  working m stage hm hmid' := by
    rw [hcalls] at hm
    rw [hqueue]
    rcases Table.get?_set_eq_some.mp hm with ⟨rfl, -⟩ | ⟨-, hm⟩
    · exact hq
    · exact hc.working m stage hm hmid'

theorem Orderly.change {e : Event} (hc : c.Orderly) (h : Change c e c') :
    c'.Orderly := by
  cases h with
  | nothing he => exact hc
  | called hn => exact hc.move_outside (fun old ho => by rw [hn] at ho; cases ho) rfl
  | atOnce hn ho =>
    refine hc.move_outside (fun old h => ?_) rfl
    rw [hn, Option.some.injEq] at h
    exact h ▸ rfl
  | joined hn => exact hc.join hn
  | turned he hn hq ht =>
    rcases ht.turn.ends with hmid | ⟨outcome, rfl⟩
    · exact hc.go_on hq hmid ht.calls (by rw [ht.queue, if_pos hmid])
    · exact hc.leave rfl ht.calls (by rw [ht.queue]; rfl)
  | dropped hn hs => exact hc.leave rfl rfl rfl

/-! ## Runs -/

theorem run_append (c : Controller) (before after : List Event) :
    c.run (before ++ after) = (c.run before).run after :=
  List.foldl_append

/-- What holds at the start and is kept by every event of a run holds at its end. The property may
speak of the events so far. -/
theorem run_induction {P : List Event → Controller → Prop} {events : List Event} (h0 : P [] c)
    (hstep : ∀ before e c, e ∈ events → P before c → P (before ++ [e]) (c.apply e)) :
    P events (c.run events) := by
  suffices h : ∀ after before c, (∀ e ∈ after, e ∈ events) → P before c →
      P (before ++ after) (c.run after) from h events [] c (fun _ h => h) h0
  intro after
  induction after with
  | nil => intro before c _ hP; simpa [run] using hP
  | cons e rest ih =>
    intro before c hmem hP
    have := ih (before ++ [e]) (c.apply e) (fun e' he' => hmem e' (List.mem_cons_of_mem _ he'))
      (hstep before e c (hmem e List.mem_cons_self) hP)
    rwa [List.append_assoc] at this

theorem run_orderly (hc : c.Orderly) (events : List Event) :
    (c.run events).Orderly :=
  run_induction (P := fun _ c => c.Orderly) hc fun _ e _ _ h => h.change (apply_change h e)

end Controller

end LanguageClient.Activation
