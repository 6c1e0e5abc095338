import LanguageClient.Proofs.Activation.Turns

/-!
# What is left of what a controller has brought up

The controller remembers one server and one phase. What really exists out there is another matter:
processes exist because a launch was asked for, sessions because an opening was, and both go away
only when somebody reports it. `ledgerOf` computes that from the trace alone, without looking at the
controller.

The file proves that the two agree as long as no call is dropped: at every moment of every run, the
ledger is what the holder of the slot has in its hands, or, when nobody is in the middle of
anything, what belongs to the server that the controller owns (`Books`). Since hands hold one server
at most, so does the ledger, and everything else follows: **`one_server_at_a_time`**.
-/

namespace LanguageClient.Activation

/-- What has been brought up and not been wound down. A process is there from the moment its launch
is asked for until the launch fails or ending it is reported to be over, and a session is there from
the moment its opening is asked for until the opening fails or stopping it is reported to be over.
Processes and sessions carry the number of the call that has brought them up. -/
structure Ledger where
  processes : List Nat := []
  sessions : List Nat := []
  /-- The calls that wait for a process to end, each with the process. -/
  kills : List (Nat × Nat) := []
  /-- The calls that wait for a session to stop, each with the session. -/
  stops : List (Nat × Nat) := []
  deriving DecidableEq, Repr

namespace Ledger

def record (l : Ledger) : Deed → Ledger
  | .asked n (.launch _) => { l with processes := l.processes ++ [n] }
  | .answered n (.launched (.error _)) => { l with processes := l.processes.filter (· != n) }
  | .asked n (.openSession _) => { l with sessions := l.sessions ++ [n] }
  | .answered n (.opened (.error _)) => { l with sessions := l.sessions.filter (· != n) }
  | .asked n (.kill p) => { l with kills := l.kills ++ [(n, p)] }
  | .answered n (.killed _) =>
    { l with
      processes := l.processes.filter fun p => !l.kills.contains (n, p)
      kills := l.kills.filter (·.1 != n) }
  | .asked n (.stopSession s) => { l with stops := l.stops ++ [(n, s)] }
  | .answered n (.stopped _ _) =>
    { l with
      sessions := l.sessions.filter fun s => !l.stops.contains (n, s)
      stops := l.stops.filter (·.1 != n) }
  | _ => l

def Has (l : Ledger) (n : Nat) : Prop := n ∈ l.processes ∨ n ∈ l.sessions

theorem has_of_has_record {l : Ledger} {d : Deed} {n : Nat} (h : (l.record d).Has n) :
    l.Has n ∨ ∃ request, d = .asked n request := by
  unfold Has record at h
  split at h
  case h_1 =>
    rcases h with h | h
    · rcases List.mem_append.mp h with h | h
      · exact .inl (.inl h)
      · exact .inr ⟨_, by rw [List.mem_singleton.mp h]⟩
    · exact .inl (.inr h)
  case h_3 =>
    rcases h with h | h
    · exact .inl (.inl h)
    · rcases List.mem_append.mp h with h | h
      · exact .inl (.inr h)
      · exact .inr ⟨_, by rw [List.mem_singleton.mp h]⟩
  case h_2 | h_6 => exact .inl (h.imp (fun h => (List.mem_filter.mp h).1) id)
  case h_4 | h_8 => exact .inl (h.imp id fun h => (List.mem_filter.mp h).1)
  case h_5 | h_7 | h_9 => exact .inl h

theorem has_of_has_foldl {deeds : List Deed} {n : Nat} {l : Ledger}
    (h : (deeds.foldl record l).Has n) : l.Has n ∨ ∃ request, .asked n request ∈ deeds := by
  induction deeds generalizing l with
  | nil => exact .inl h
  | cons d rest ih =>
    rcases ih h with h' | ⟨request, h'⟩
    · rcases has_of_has_record h' with h'' | ⟨request, rfl⟩
      · exact .inl h''
      · exact .inr ⟨request, List.mem_cons_self⟩
    · exact .inr ⟨request, List.mem_cons_of_mem _ h'⟩

end Ledger

def ledgerOf (trace : List Deed) : Ledger := trace.foldl Ledger.record {}

theorem ledgerOf_append (trace deeds : List Deed) :
    ledgerOf (trace ++ deeds) = deeds.foldl Ledger.record (ledgerOf trace) :=
  List.foldl_append

/-! ## What the controller believes is there

Its phase and its server say what should be there, and the trace what is. The books compare them. -/

def processOf (n : Nat) (launched : Bool) : List Nat := if launched then [n] else []

def Stage.inHand (n : Nat) : Stage → Ledger
  | .launching plan _ | .connecting plan => { processes := processOf n plan.command.isSome }
  | .opening plan => { processes := processOf n plan.command.isSome, sessions := [n] }
  | .releasing _ => { processes := [n], kills := [(n, n)] }
  | .stopping server =>
    { processes := processOf server.owner server.launched
      sessions := [server.owner]
      stops := [(n, server.owner)] }
  | .ending server _ _ => { processes := [server.owner], kills := [(n, server.owner)] }
  | .fresh _ | .queued _ | .probing _ | .over _ | .dropped => {}

def Stage.phase : Stage → ActivationPhase
  | .stopping _ | .ending _ _ _ => .deactivating
  | _ => .activating

def ownedBy : Option ActiveServer → Ledger
  | none => {}
  | some server =>
    { processes := processOf server.owner server.launched, sessions := [server.owner] }

def phaseAtRest : Option ActiveServer → ActivationPhase
  | none => .notActivated
  | some _ => .activated

/-- What call `n` sees accounts for a ledger: in the middle of something the ledger is what the call
has in its hands, and otherwise it is what belongs to the server. -/
def View.Accounts (n : Nat) (v : View) (l : Ledger) : Prop :=
  if v.stage.midway then v.server = none ∧ v.phase = v.stage.phase ∧ l = v.stage.inHand n
  else v.phase = phaseAtRest v.server ∧ l = ownedBy v.server

variable {n : Nat} {v v' : View} {l : Ledger} {deeds : List Deed}

theorem View.accounts_midway (h : v.stage.midway = true) :
    v.Accounts n l ↔ v.server = none ∧ v.phase = v.stage.phase ∧ l = v.stage.inHand n := by
  unfold View.Accounts
  rw [if_pos h]

theorem View.accounts_rest (h : v.stage.midway = false) :
    v.Accounts n l ↔ v.phase = phaseAtRest v.server ∧ l = ownedBy v.server := by
  unfold View.Accounts
  rw [if_neg (by rw [h]; simp)]

theorem View.Accounts.single (h : v.Accounts n l) :
    l.processes.length ≤ 1 ∧ l.sessions.length ≤ 1 ∧
      (v.phase = .notActivated → l.processes = [] ∧ l.sessions = []) := by
  have hproc : ∀ m b, (processOf m b).length ≤ 1 := by
    intro m b
    cases b <;> simp [processOf]
  cases hm : v.stage.midway with
  | true =>
    obtain ⟨-, hphase, rfl⟩ := (View.accounts_midway hm).mp h
    have hne : v.phase ≠ .notActivated := by
      rw [hphase]
      cases v.stage <;> simp [Stage.phase]
    refine ⟨?_, ?_, fun hp => absurd hp hne⟩
    · cases v.stage <;> simp [Stage.inHand, hproc]
    · cases v.stage <;> simp [Stage.inHand]
  | false =>
    obtain ⟨hphase, rfl⟩ := (View.accounts_rest hm).mp h
    cases hs : v.server with
    | none => simp [ownedBy]
    | some server =>
      refine ⟨hproc _ _, Nat.le_refl 1, fun hp => ?_⟩
      rw [hphase, hs] at hp
      exact absurd hp (by simp [phaseAtRest])

/-! ## Turns keep the books -/

theorem Turn.accounts (ht : Turn n v deeds v') (h : v.Accounts n l) :
    v'.Accounts n (deeds.foldl Ledger.record l) := by
  -- In each case both sides are closed forms, up to whether the plan has a command.
  cases ht <;>
    simp_all [View.Accounts, Stage.midway, Stage.inHand, Stage.phase, phaseAtRest, ownedBy,
      processOf, Ledger.record]

theorem Turn.begins (ht : Turn n v deeds v') :
    v.stage.wantsSlot = true := by
  cases ht <;> rfl

theorem Turn.asked_self {m : Nat} {request : Request} (ht : Turn n v deeds v')
    (h : .asked m request ∈ deeds) : m = n := by
  cases ht <;> simp_all

theorem Turn.deactivated {report : DeactivationReport} (ht : Turn n v deeds v') (h : v.Accounts n l)
    (hs : v'.stage = .over (.deactivated report)) : v'.server = none := by
  cases ht <;> simp_all [View.Accounts, Stage.midway]

theorem Turn.kill_waits {m p : Nat} {before after : List Deed} (ht : Turn n v deeds v')
    (h : v.Accounts n l) (hd : deeds = before ++ .asked m (.kill p) :: after) :
    p ∉ (before.foldl Ledger.record l).sessions := by
  -- A turn does two deeds at most, and a kill is never the first of them.
  have hsplit : ∀ d d' : Deed, [d, d'] = before ++ .asked m (.kill p) :: after →
      (before = [] ∧ d = .asked m (.kill p)) ∨ (before = [d] ∧ d' = .asked m (.kill p)) := by
    intro d d' hdd
    rcases before with _ | ⟨x, _ | ⟨y, rest⟩⟩ <;> simp_all
  have hsingle : ∀ d : Deed, [d] = before ++ .asked m (.kill p) :: after →
      d = .asked m (.kill p) := by
    intro d hdd
    rcases before with _ | ⟨x, rest⟩ <;> simp_all
  cases ht with
  | alreadyActive | invalid | idle | found => simp at hd
  | free | freeAttached | launched | connected =>
    rcases hsplit _ _ hd with ⟨-, h⟩ | ⟨-, h⟩ <;> cases h
  | unconnectedRelease | unopenedRelease | stoppedEnding =>
    rcases hsplit _ _ hd with ⟨-, hk⟩ | ⟨rfl, hk⟩
    · cases hk
    · obtain ⟨-, -, rfl⟩ := (View.accounts_midway rfl).mp h
      simp [Stage.inHand, Ledger.record]
  | _ => cases hsingle _ hd

namespace Controller

/-- No process is being ended while its session is there. -/
def KillsWait (trace : List Deed) : Prop :=
  ∀ before n p after, trace = before ++ .asked n (.kill p) :: after →
    p ∉ (ledgerOf before).sessions

theorem KillsWait.append {trace : List Deed} (h : KillsWait trace)
    (hd : ∀ before n p after, deeds = before ++ Deed.asked n (.kill p) :: after →
      p ∉ (before.foldl Ledger.record (ledgerOf trace)).sessions) : KillsWait (trace ++ deeds) := by
  intro before n p after heq
  rcases List.append_eq_append_iff.mp heq with ⟨mid, rfl, hmid⟩ | ⟨mid, hmid, htail⟩
  · rw [ledgerOf_append]
    exact hd mid n p after hmid
  · cases mid with
    | nil =>
      have hb : trace = before := by simpa using hmid
      subst hb
      simpa using hd [] n p after (by simpa using htail.symm)
    | cons d rest =>
      obtain ⟨rfl, -⟩ := List.cons.inj htail
      exact h before n p rest hmid

/-- What the controller believes is what is there. -/
structure Books (c : Controller) : Prop where
  orderly : c.Orderly
  atWork : ∀ n stage, c.calls.get? n = some stage → stage.midway = true →
    (View.mk c.phase c.server stage).Accounts n (ledgerOf c.trace)
  atRest : (∀ n stage, c.calls.get? n = some stage → stage.midway = false) →
    c.phase = phaseAtRest c.server ∧ ledgerOf c.trace = ownedBy c.server
  killsWait : KillsWait c.trace

theorem Books.initial : Books {} where
  orderly := Orderly.initial
  atWork n stage hn := by simp [Table.get?] at hn
  atRest _ := ⟨rfl, rfl⟩
  killsWait before n p after h := by simp at h

variable {c c' : Controller} {stage stage' : Stage} {m : Nat} {report : DeactivationReport}

theorem Books.holder (hc : c.Books) (hq : c.queue.head? = some n)
    (hn : c.calls.get? n = some stage) :
    (View.mk c.phase c.server stage).Accounts n (ledgerOf c.trace) := by
  cases hm : stage.midway with
  | true => exact hc.atWork n stage hn hm
  | false =>
    exact (View.accounts_rest hm).mpr (hc.atRest (hc.orderly.atRest hq hn hm))

theorem Books.move_outside (hc : c.Books) (ho : c'.Orderly)
    (hn : ∀ stage, c.calls.get? n = some stage → stage.midway = false) (hs : stage'.midway = false)
    (hphase : c'.phase = c.phase) (hserver : c'.server = c.server) (htrace : c'.trace = c.trace)
    (hcalls : c'.calls = c.calls.set n stage') : c'.Books where
  orderly := ho
  atWork m stage hm hmid := by
    rw [hcalls] at hm
    rw [hphase, hserver, htrace]
    rcases Table.get?_set_eq_some.mp hm with ⟨-, rfl⟩ | ⟨-, hm⟩
    · cases hs.symm.trans hmid
    · exact hc.atWork m stage hm hmid
  atRest hrest := by
    rw [hphase, hserver, htrace]
    refine hc.atRest fun m stage hm => ?_
    by_cases h : m = n
    · exact hn stage (h ▸ hm)
    · exact hrest m stage (by rw [hcalls, Table.get?_set_of_ne _ _ h]; exact hm)
  killsWait := htrace ▸ hc.killsWait

theorem Books.turned (hc : c.Books) (ho : c'.Orderly) (hq : c.queue.head? = some n)
    (hn : c.calls.get? n = some stage) (ht : Turned c n stage c' deeds stage') : c'.Books := by
  have hacc : (View.mk c'.phase c'.server stage').Accounts n (ledgerOf c'.trace) := by
    rw [ht.trace, ledgerOf_append]
    exact ht.turn.accounts (hc.holder hq hn)
  have hself := ht.self
  refine ⟨ho, fun m st hm hmid => ?_, fun hrest => ?_, ?_⟩
  · by_cases h : m = n
    · subst h
      rw [hself, Option.some.injEq] at hm
      exact hm ▸ hacc
    · -- Somebody else in the middle of something would hold the slot too.
      rw [ht.other h] at hm
      exact absurd (hc.orderly.eq_holder hq hm hmid) h
  · exact (View.accounts_rest (hrest n stage' hself)).mp hacc
  · rw [ht.trace]
    exact hc.killsWait.append fun before m p after hd =>
      ht.turn.kill_waits (hc.holder hq hn) hd

theorem Books.change {e : Event} (hc : c.Books) (h : Change c e c') (hkept : ∀ n, e ≠ .drop n) :
    c'.Books := by
  have ho := hc.orderly.change h
  cases h with
  | nothing he => exact hc
  | called hn =>
    exact hc.move_outside ho (fun stage h => by rw [hn] at h; cases h) rfl rfl rfl rfl rfl
  | atOnce hn hout | joined hn =>
    refine hc.move_outside ho (fun stage h => ?_) rfl rfl rfl rfl rfl
    rw [hn, Option.some.injEq] at h
    exact h ▸ rfl
  | turned he hn hq ht => exact hc.turned ho hq hn ht
  | dropped hn hs => exact absurd rfl (hkept _)

theorem run_books (hc : c.Books) {events : List Event} (hkept : ∀ n, Event.drop n ∉ events) :
    (c.run events).Books := by
  refine run_induction (P := fun _ c => c.Books) hc fun _ e c he h => ?_
  exact h.change (apply_change h.orderly e) fun n heq => hkept n (heq ▸ he)

theorem Books.single (hc : c.Books) :
    (ledgerOf c.trace).processes.length ≤ 1 ∧ (ledgerOf c.trace).sessions.length ≤ 1 ∧
      (c.phase = .notActivated →
        (ledgerOf c.trace).processes = [] ∧ (ledgerOf c.trace).sessions = []) := by
  by_cases h : ∃ n stage, c.calls.get? n = some stage ∧ stage.midway = true
  · obtain ⟨n, stage, hn, hmid⟩ := h
    exact (hc.atWork n stage hn hmid).single
  · have hrest : ∀ n stage, c.calls.get? n = some stage → stage.midway = false := by
      intro n stage hn
      cases hm : stage.midway with
      | false => rfl
      | true => exact absurd ⟨n, stage, hn, hm⟩ h
    exact View.Accounts.single (n := 0) (v := ⟨c.phase, c.server, .dropped⟩)
      ((View.accounts_rest rfl).mpr (hc.atRest hrest))

/-! ## What a deactivation leaves behind

A call that had the slot first may still be holding it when the deactivation comes, so both are
followed. -/

theorem outcomeOf_eq_some {outcome : Outcome} :
    c.outcomeOf n = some outcome ↔ c.calls.get? n = some (.over outcome) := by
  unfold outcomeOf
  constructor
  · intro h
    split at h
    · rename_i o ho
      rw [ho, Option.some.inj h]
    · cases h
  · intro h
    rw [h]

/-- Call `n` has had the slot before call `m`: it still has it, or it is over and nothing of it is
left once `m` has wound things down. -/
def Precedes (c : Controller) (n m : Nat) : Prop :=
  (c.queue.head? = some n ∧ ∀ report, c.calls.get? m ≠ some (.over (.deactivated report))) ∨
    ((∃ outcome, c.calls.get? n = some (.over outcome)) ∧
      ∀ report, c.calls.get? m = some (.over (.deactivated report)) →
        ¬ (ledgerOf c.trace).Has n)

theorem Books.nothing_left (hc : c.Books) (hq : c.queue.head? = some n)
    (hn : c.calls.get? n = some stage)
    (ht : Turned c n stage c' deeds (.over (.deactivated report))) :
    ¬ (ledgerOf c'.trace).Has m := by
  have hacc := ht.turn.accounts (hc.holder hq hn)
  obtain ⟨-, hl⟩ := (View.accounts_rest rfl).mp hacc
  have hserver : c'.server = none := ht.turn.deactivated (hc.holder hq hn) rfl
  rw [ht.trace, ledgerOf_append, hl, hserver]
  simp [ownedBy, Ledger.Has]

/-- A call that is not about to finish a deactivation moves while it does not have the slot. -/
theorem Precedes.move_outside {k : Nat} (h : c.Precedes n m)
    (hk : ∀ outcome, c.calls.get? k ≠ some (.over outcome))
    (hs : ∀ report, stage' ≠ .over (.deactivated report))
    (hqueue : c.queue.head? = some n → c'.queue.head? = some n) (htrace : c'.trace = c.trace)
    (hcalls : c'.calls = c.calls.set k stage') :
    c'.Precedes n m := by
  have hm : ∀ report, c'.calls.get? m = some (.over (.deactivated report)) →
      c.calls.get? m = some (.over (.deactivated report)) := by
    intro report hover
    rw [hcalls] at hover
    rcases Table.get?_set_eq_some.mp hover with ⟨-, heq⟩ | ⟨-, hover⟩
    · exact absurd heq.symm (hs report)
    · exact hover
  rcases h with ⟨hq, hnot⟩ | ⟨⟨outcome, ho⟩, hleft⟩
  · exact .inl ⟨hqueue hq, fun report hover => hnot report (hm report hover)⟩
  · refine .inr ⟨⟨outcome, ?_⟩, fun report hover => ?_⟩
    · have hnk : n ≠ k := fun heq => hk outcome (heq ▸ ho)
      rw [hcalls, Table.get?_set_of_ne _ _ hnk, ho]
    · rw [htrace]
      exact hleft report (hm report hover)

/-- The holder of the slot moves. If it is `n`, it keeps the slot or is over; if it is `m`, nothing
is left when its deactivation ends; and no other call speaks for `n`. -/
theorem Precedes.turned {k : Nat} (h : c.Precedes n m) (hc : c.Books) (hq : c.queue.head? = some k)
    (hk : c.calls.get? k = some stage) (ht : Turned c k stage c' deeds stage') :
    c'.Precedes n m := by
  have hends : ∀ report, c'.calls.get? m = some (.over (.deactivated report)) →
      (m = k ∧ stage' = .over (.deactivated report)) ∨
        (m ≠ k ∧ c.calls.get? m = some (.over (.deactivated report))) := by
    intro report hover
    rw [ht.calls] at hover
    exact (Table.get?_set_eq_some.mp hover).imp_left fun h => ⟨h.1, h.2.symm⟩
  rcases h with ⟨hqn, hnot⟩ | ⟨⟨outcome, ho⟩, hleft⟩
  · rw [hq, Option.some.injEq] at hqn
    subst hqn
    rcases ht.turn.ends with hmid | ⟨outcome, rfl⟩
    · refine .inl ⟨by rw [ht.queue, if_pos hmid, hq], fun report hover => ?_⟩
      rcases hends report hover with ⟨-, rfl⟩ | ⟨-, hover⟩
      · cases hmid
      · exact hnot report hover
    · refine .inr ⟨⟨outcome, ht.self⟩, fun report hover => ?_⟩
      rcases hends report hover with ⟨-, heq⟩ | ⟨-, hover⟩
      · exact hc.nothing_left hq hk (heq ▸ ht)
      · exact absurd hover (hnot report)
  · have hnk : n ≠ k := by
      rintro rfl
      rw [hk, Option.some.injEq] at ho
      subst ho
      exact absurd ht.turn.begins (by simp [Stage.wantsSlot])
    refine .inr ⟨⟨outcome, by rw [ht.other hnk, ho]⟩, fun report hover => ?_⟩
    rcases hends report hover with ⟨-, rfl⟩ | ⟨-, hover⟩
    · exact hc.nothing_left hq hk ht
    · rw [ht.trace, ledgerOf_append]
      intro hhas
      rcases Ledger.has_of_has_foldl hhas with hhas | ⟨request, hasked⟩
      · exact hleft report hover hhas
      · exact hnk (ht.turn.asked_self hasked)

theorem answerAtOnce_ne_deactivated {ask : Ask} {outcome : Outcome}
    (h : c.answerAtOnce ask = some outcome) : outcome ≠ .deactivated report := by
  rintro rfl
  unfold answerAtOnce at h
  split at h
  · split at h <;> simp at h
  · split at h <;> simp at h
  · simp at h

theorem Precedes.change {e : Event} (hp : c.Precedes n m) (hc : c.Books) (h : Change c e c')
    (hkept : ∀ n, e ≠ .drop n) : c'.Precedes n m := by
  cases h with
  | nothing he => exact hp
  | @called k ask hn =>
    exact hp.move_outside (fun outcome h => by rw [hn] at h; cases h)
      (fun report h => by cases h) id rfl rfl
  | atOnce hn hout =>
    refine hp.move_outside (fun outcome h => by rw [hn] at h; cases h)
      (fun report h => ?_) id rfl rfl
    exact answerAtOnce_ne_deactivated hout (Stage.over.inj h)
  | @joined k ask hn =>
    refine hp.move_outside (fun outcome h => by rw [hn] at h; cases h)
      (fun report h => by cases h) (fun hq => ?_) rfl rfl
    show (c.queue ++ [k]).head? = some n
    rw [List.head?_append, hq]
    rfl
  | turned he hn hq ht => exact hp.turned hc hq hn ht
  | dropped hn hs => exact absurd rfl (hkept _)

theorem run_precedes (hp : c.Precedes n m) (hc : c.Books) {events : List Event}
    (hkept : ∀ n, Event.drop n ∉ events) : (c.run events).Precedes n m := by
  refine (run_induction (P := fun _ c => c.Books ∧ c.Precedes n m) ⟨hc, hp⟩
    fun _ e c he h => ?_).2
  have hch := apply_change h.1.orderly e
  have hne : ∀ n, e ≠ .drop n := fun n heq => hkept n (heq ▸ he)
  exact ⟨h.1.change hch hne, h.2.change h.1 hch hne⟩

/-- **One server at a time.** In every run without dropped calls, at every moment: there is one
process and one session at most; no process is being ended while its session is there; there is
neither when the phase says that nothing is active, which is when a deactivation that need not be is
turned away; and once a deactivation is over, nothing is left of a call that had the slot before it,
though it may have come in the middle of that call. -/
theorem one_server_at_a_time (events : List Event) (hkept : ∀ n, Event.drop n ∉ events) :
    let c := run {} events
    let l := ledgerOf c.trace
    (l.processes.length ≤ 1 ∧ l.sessions.length ≤ 1) ∧
    (∀ before n p after, c.trace = before ++ .asked n (.kill p) :: after →
      p ∉ (ledgerOf before).sessions) ∧
    (c.answerAtOnce .deactivateIfBusy = some .notBusy ↔ c.phase = .notActivated) ∧
    (c.phase = .notActivated → l.processes = [] ∧ l.sessions = []) ∧
    (∀ before after n m report, events = before ++ after →
      (run {} before).holdsSlot n = true → (run {} before).outcomeOf m = none →
      c.outcomeOf m = some (.deactivated report) → n ∉ l.processes ∧ n ∉ l.sessions) := by
  intro c l
  have hc : c.Books := run_books Books.initial hkept
  obtain ⟨hprocesses, hsessions, hnone⟩ := hc.single
  refine ⟨⟨hprocesses, hsessions⟩, hc.killsWait, ?_, hnone, ?_⟩
  · simp [answerAtOnce]
  · intro before after n m report heq hslot hnot hover
    have hsub : ∀ part : List Event, (∀ e ∈ part, e ∈ events) → ∀ n, Event.drop n ∉ part :=
      fun part hpart n hmem => hkept n (hpart _ hmem)
    have hbefore : (run {} before).Books :=
      run_books Books.initial (hsub before fun e he => heq ▸ List.mem_append_left _ he)
    have hstart : (run {} before).Precedes n m := by
      refine .inl ⟨holdsSlot_iff.mp hslot, fun report hover => ?_⟩
      rw [outcomeOf_eq_some.mpr hover] at hnot
      cases hnot
    have hend : c.Precedes n m := by
      show (run {} events).Precedes n m
      rw [heq, run_append]
      exact run_precedes hstart hbefore
        (hsub after fun e he => heq ▸ List.mem_append_right _ he)
    rw [outcomeOf_eq_some] at hover
    rcases hend with ⟨-, hnot⟩ | ⟨-, hleft⟩
    · exact absurd hover (hnot report)
    · exact not_or.mp (hleft report hover)

/-- A deactivation that comes while an activation is connecting. It waits until the session is open,
and then winds everything down. -/
def overlap : List Event :=
  [.call 0 (.activate (.managed ⟨"server", ["lsp"], none, .piped⟩ (.stdio "server" ["lsp"]))),
    .step 0, .step 0, .answer 0 (.launched (.ok ())), .call 1 .deactivate, .step 1,
    .answer 0 (.connected (.ok ())), .answer 0 (.opened (.ok ())), .step 1,
    .answer 1 (.stopped (.ok ()) .stopped), .answer 1 (.killed .exited)]

theorem overlap_leaves_nothing :
    (∀ n, Event.drop n ∉ overlap) ∧
    (ledgerOf (run {} (overlap.take 6)).trace).processes = [0] ∧
    (run {} (overlap.take 6)).holdsSlot 0 = true ∧
    (run {} overlap).outcomeOf 1 = some (.deactivated ⟨true, none, some .exited⟩) ∧
    0 ∉ (ledgerOf (run {} overlap).trace).processes ∧
    0 ∉ (ledgerOf (run {} overlap).trace).sessions := by
  have hkept : ∀ n, Event.drop n ∉ overlap := by simp [overlap]
  have hover : (run {} overlap).outcomeOf 1 = some (.deactivated ⟨true, none, some .exited⟩) := rfl
  obtain ⟨-, -, -, -, hleft⟩ := one_server_at_a_time overlap hkept
  exact ⟨hkept, rfl, rfl, hover,
    hleft (overlap.take 6) (overlap.drop 6) 0 1 _ (List.take_append_drop 6 overlap).symm rfl rfl
      hover⟩

end Controller

end LanguageClient.Activation
