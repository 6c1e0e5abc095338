import LanguageClient.Proofs.Session.Writer
import Mathlib.Data.Nat.Pairing

/-!
# Runs in which nobody is neglected

What is to happen at some time happens only if those who have to act for it get the chance. A run
without end is *fair* if every task is given a step again and again, and no task is kept writing for
ever without the stream taking or refusing something. `Fair.leads_to` is the one argument by which
things come about in fair runs: there is a measure that nothing lets grow, and at any time something
that is needed, stays needed until it happens, and lets the measure shrink when it does.

For a task at the head of the queue for the writer that something is a step of its own or the stream
(`progress`).
-/

namespace LanguageClient

namespace Session

variable {s s' mid : Session} {n : Nat} {t : Task}

/-! ## What a task at the writer needs -/

inductive Need where
  /-- A step of task `t`. -/
  | step (t : Task)
  /-- That the stream takes some of what task `t` is writing, or refuses it. -/
  | stream (t : Task)

/-- Event `e`, which happens to session `s`, meets the need. A task that is not writing does not need
the stream. -/
def Need.Met (s : Session) (e : Event) : Need → Prop
  | .step t => e = .step t
  | .stream t =>
    s.offered t = [] ∨ (∃ count, e = .accept t (count + 1)) ∨ ∃ cause, e = .refuse t cause

/-- What task `t` needs in order to get on, once it has the writer. -/
def needAt (s : Session) (t : Task) : Need := if s.offered t = [] then .step t else .stream t

theorem offered_eq (s : Session) (t : Task) :
    s.offered t = (s.errand t).elim [] Errand.offers := by
  cases t with
  | reader => rfl
  | refusal n =>
    cases hr : s.refusals.get? n with
    | none => simp [offered, sendingOf, errand, hr]
    | some stage =>
      rw [errand_refusal hr, offered, sendingOf, hr]
      cases stage with
      | fresh request => rfl
      | sending send => cases send <;> rfl
  | call n =>
    cases hc : s.calls.get? n with
    | none => simp [offered, sendingOf, errand, stageOf, hc]
    | some c =>
      obtain ⟨stage, mailbox⟩ := c
      rw [errand_call (stageOf_of_get? hc), offered, sendingOf, hc]
      cases stage with
      | working work deadline purpose =>
        cases work with
        | exchange exchange =>
          cases exchange with
          | sending id sending => cases sending <;> rfl
          | _ => rfl
        | send sending => cases sending <;> rfl
      | givingUp closing error => cases closing <;> rfl
      | ending closing result => cases closing <;> rfl
      | _ => rfl

theorem needAt_congr (h : s'.errand t = s.errand t) : s'.needAt t = s.needAt t := by
  rw [needAt, needAt, offered_eq, offered_eq, h]

variable {deadline : Option Nat} {purpose : Purpose} {mailbox : Option Reply} {x : Errand}
  {sending : Sending}

theorem errand_of_going {work next : Work} (hc : s.At n (.working work deadline purpose) mailbox)
    (hg : s.workStep n mailbox work = .going mid next) (hcalls : mid.calls = s.calls) :
    (s.apply (.step (.call n))).errand (.call n) = (Stage.working next deadline purpose).errand := by
  rw [apply_of_going hc hg]
  exact errand_moved ((stageOf_congr hcalls n).trans (stageOf_of_get? hc))

theorem errand_of_finished {work : Work} {result : Except SessionError Json}
    (hc : s.At n (.working work deadline purpose) mailbox)
    (hf : s.workStep n mailbox work = .finished mid result) :
    (s.apply (.step (.call n))).errand (.call n) = none := by
  rw [apply_of_finished hc hf]
  exact (settled_finishWork ..).errand_self

/-- The calls with an errand: an exchange or a message on its way, or the end of the session. -/
theorem errand_call_cases (h : s.errand (.call n) = some x) :
    ∃ mailbox, (∃ sending deadline purpose, sending.errand = some x ∧
        ((∃ id, s.At n (.working (.exchange (.sending id sending)) deadline purpose) mailbox) ∨
          s.At n (.working (.send sending) deadline purpose) mailbox)) ∨
      (∃ error, s.At n (.givingUp .queued error) mailbox) ∨
      ∃ result, s.At n (.ending .queued result) mailbox := by
  cases hc : s.calls.get? n with
  | none =>
    rw [errand_of_no_call hc] at h
    cases h
  | some c =>
    obtain ⟨stage, mailbox⟩ := c
    rw [errand_call (stageOf_of_get? hc)] at h
    refine ⟨mailbox, ?_⟩
    cases stage with
    | working work deadline purpose =>
      cases work with
      | exchange exchange =>
        cases exchange with
        | sending id sending => exact .inl ⟨sending, deadline, purpose, h, .inl ⟨id, hc⟩⟩
        | _ => cases h
      | send sending => exact .inl ⟨sending, deadline, purpose, h, .inr hc⟩
    | givingUp closing error =>
      cases closing with
      | queued => exact .inr (.inl ⟨error, hc⟩)
      | _ => cases h
    | ending closing result =>
      cases closing with
      | queued => exact .inr (.inr ⟨result, hc⟩)
      | _ => cases h
    | _ => cases h

/-- Sending gets on: with the writer in hand, or with nothing left to write. -/
inductive Ready (s : Session) (t : Task) : Sending → Prop where
  | turn {payload : List UInt8} (h : s.holdsWriter t = true) : Ready s t (.queued payload)
  | written {payload : List UInt8} : Ready s t (.writing payload [])

theorem Ready.sendStep (h : Ready s t sending) :
    (∃ next, s.sendStep t sending = .going s next ∧ next.errand ≠ sending.errand) ∨
      ∃ mid result, s.sendStep t sending = .finished mid result ∧ mid.calls = s.calls := by
  cases h with
  | @turn payload hhold =>
    cases hw : s.writer with
    | true =>
      refine .inl ⟨.writing payload (Frame.encode payload), ?_, nofun⟩
      rw [Session.sendStep, if_pos hhold, if_pos hw]
    | false =>
      refine .inr ⟨s.leaveQueue t, .error .closed, ?_, rfl⟩
      rw [Session.sendStep, if_pos hhold, if_neg (Bool.eq_false_iff.mp hw)]
  | written => exact .inr ⟨_, _, rfl, rfl⟩

theorem Ready.errand_ne (h : Ready s t sending) :
    none ≠ sending.errand := by
  cases h <;> nofun

theorem Ready.exchange_progress {id : Nat} (h : Ready s (.call n) sending)
    (hc : s.At n (.working (.exchange (.sending id sending)) deadline purpose) mailbox) :
    (s.apply (.step (.call n))).errand (.call n) ≠ sending.errand := by
  obtain ⟨next, hstep, hne⟩ | ⟨mid, result, hstep, hcalls⟩ := h.sendStep
  · rw [errand_of_going hc (by rw [workStep, exchangeStep, hstep]) rfl]
    exact hne
  · cases result with
    | ok value =>
      rw [errand_of_going hc (by rw [workStep, exchangeStep, hstep]) hcalls]
      exact h.errand_ne
    | error error =>
      rw [errand_of_finished hc (by rw [workStep, exchangeStep, hstep])]
      exact h.errand_ne

theorem Ready.message_progress (h : Ready s (.call n) sending)
    (hc : s.At n (.working (.send sending) deadline purpose) mailbox) :
    (s.apply (.step (.call n))).errand (.call n) ≠ sending.errand := by
  obtain ⟨next, hstep, hne⟩ | ⟨mid, result, hstep, hcalls⟩ := h.sendStep
  · rw [errand_of_going hc (by rw [workStep, hstep]) rfl]
    exact hne
  · rw [errand_of_finished hc (by rw [workStep, hstep])]
    exact h.errand_ne

theorem Ready.refusal_progress (h : Ready s (.refusal n) sending)
    (hr : s.refusals.get? n = some (.sending sending)) :
    (s.apply (.step (.refusal n))).errand (.refusal n) ≠ sending.errand := by
  rw [apply, step, refusalStep, hr]
  obtain ⟨next, hstep, hne⟩ | ⟨mid, result, hstep, hcalls⟩ := h.sendStep
  · simp only [hstep]
    have hafter : Session.errand { s with refusals := s.refusals.set n (.sending next) }
        (.refusal n) = next.errand := Eq.trans (errand_refusal_set rfl) rfl
    exact fun heq => hne (hafter.symm.trans heq)
  · have hgone : ∀ s' : Session, s'.refusals.get? n = none →
        s'.errand (.refusal n) ≠ sending.errand :=
      fun s' hs' => errand_of_no_refusal hs' ▸ h.errand_ne
    cases result with
    | ok value | error error =>
      simp only [hstep]
      exact hgone _ (Table.get?_erase_self ..)

theorem Ready.of_errand (hhold : s.holdsWriter t = true) (hx : sending.errand = some x)
    (hoff : x.offers = []) : Ready s t sending := by
  cases sending with
  | fresh payload => cases hx
  | queued payload => exact .turn hhold
  | writing payload rest =>
    obtain rfl := Option.some.inj hx
    obtain rfl : rest = [] := hoff
    exact .written

theorem closeStep_queued (hhold : s.holdsWriter (.call n) = true) :
    ∃ mid next, s.closeStep n .queued = some (mid, some next) ∧ mid.calls = s.calls ∧
      next.errand = none := by
  refine ⟨_, _, if_pos hhold, rfl, ?_⟩
  cases s.writer <;> rfl

theorem step_progress (hhold : s.holdsWriter t = true) (hx : s.errand t = some x)
    (hoff : x.offers = []) : (s.apply (.step t)).errand t ≠ some x := by
  cases t with
  | reader => cases hx
  | refusal n =>
    cases hr : s.refusals.get? n with
    | none =>
      rw [errand_of_no_refusal hr] at hx
      cases hx
    | some stage =>
      rw [errand_refusal hr] at hx
      cases stage with
      | fresh request => cases hx
      | sending send => exact hx ▸ (Ready.of_errand hhold hx hoff).refusal_progress hr
  | call n =>
    obtain ⟨mailbox, ⟨sending, deadline, purpose, hsend, hc⟩ | ⟨error, hc⟩ | ⟨result, hc⟩⟩ :=
      errand_call_cases hx
    · have hready := Ready.of_errand hhold hsend hoff
      rcases hc with ⟨id, hc⟩ | hc
      · exact hsend ▸ hready.exchange_progress hc
      · exact hsend ▸ hready.message_progress hc
    · obtain ⟨mid, next, hclose, hcalls, hnone⟩ := closeStep_queued hhold
      have happly : s.apply (.step (.call n)) = mid.moveCall n (.givingUp next error) := by
        simp [apply, step, callStep, hc, hclose]
      rw [happly, errand_moved ((stageOf_congr hcalls n).trans (stageOf_of_get? hc)), Stage.errand,
        hnone]
      exact (Option.some_ne_none x).symm
    · obtain ⟨mid, next, hclose, hcalls, hnone⟩ := closeStep_queued hhold
      have happly : s.apply (.step (.call n)) = mid.moveCall n (.ending next result) := by
        simp [apply, step, callStep, hc, hclose]
      rw [happly, errand_moved ((stageOf_congr hcalls n).trans (stageOf_of_get? hc)), Stage.errand,
        hnone]
      exact (Option.some_ne_none x).symm

theorem accept_progress {payload rest : List UInt8} (count : Nat)
    (hs : s.sendingOf t = some (.writing payload rest)) (hne : rest ≠ []) :
    (s.apply (.accept t (count + 1))).errand t ≠ s.errand t := by
  have hless : some (Errand.writing (rest.drop (count + 1))) ≠ some (.writing rest) := by
    intro heq
    have hlen := congrArg List.length (Errand.writing.inj (Option.some.inj heq))
    have hpos := List.length_pos_iff.mpr hne
    rw [List.length_drop] at hlen
    omega
  cases t with
  | reader => cases hs
  | refusal n =>
    have hafter : (s.apply (.accept (.refusal n) (count + 1))).errand (.refusal n) =
        some (.writing (rest.drop (count + 1))) := by
      rw [apply, accept, hs]
      exact Eq.trans (errand_refusal_set rfl) rfl
    rw [hafter, errand_refusal (sendingOf_refusal hs)]
    exact hless
  | call n =>
    cases hc : s.calls.get? n with
    | none => simp [sendingOf, hc] at hs
    | some c =>
      obtain ⟨hdesk, hmoved⟩ := desk_sendingOf hc hs (.writing payload (rest.drop (count + 1)))
      have hbefore : s.errand (.call n) = some (.writing rest) := congrArg Prod.fst hdesk
      have hafter : (s.apply (.accept (.call n) (count + 1))).errand (.call n) =
          some (.writing (rest.drop (count + 1))) := by
        rw [apply, accept, hs]
        simp only [hc]
        exact Eq.trans (errand_moved (stageOf_of_get? hc)) (congrArg Prod.fst hmoved)
      rw [hafter, hbefore]
      exact hless

theorem refuse_progress {payload rest : List UInt8} (cause : IoError)
    (hs : s.sendingOf t = some (.writing payload rest)) :
    (s.apply (.refuse t cause)).errand t = none := by
  cases t with
  | reader => cases hs
  | refusal n =>
    rw [apply, refuse, hs]
    exact errand_of_no_refusal (Table.get?_erase_self ..)
  | call n =>
    rw [apply, refuse, hs]
    obtain ⟨deadline, purpose, mailbox, ⟨id, hc⟩ | hc⟩ := sendingOf_call hs
    · simp only [hc]
      exact (settled_finishWork ..).errand_self
    · simp only [hc]
      exact (settled_finishWork ..).errand_self

/-- The task at the head of the queue gets on when it is given what it needs. -/
theorem progress {e : Event} (hl : Lined s) (hhead : s.queue.head? = some t)
    (hmet : (s.needAt t).Met s e) : (s.apply e).errand t ≠ s.errand t := by
  have hmem : t ∈ s.queue := List.mem_of_mem_head? (Option.mem_def.mpr hhead)
  obtain ⟨x, hx⟩ := Option.isSome_iff_exists.mp ((hl.queued t).mp hmem)
  by_cases hoff : s.offered t = []
  · rw [needAt, if_pos hoff] at hmet
    obtain rfl : e = .step t := hmet
    rw [offered_eq, hx] at hoff
    exact hx ▸ step_progress (beq_iff_eq.mpr hhead) hx hoff
  · rw [needAt, if_neg hoff] at hmet
    obtain ⟨payload, rest, hs, hne⟩ : ∃ payload rest, s.sendingOf t = some (.writing payload rest) ∧
        rest ≠ [] := by
      unfold offered at hoff
      split at hoff
      · next payload rest hs => exact ⟨payload, rest, hs, hoff⟩
      · exact absurd rfl hoff
    rcases hmet with hnone | ⟨count, rfl⟩ | ⟨cause, rfl⟩
    · exact absurd hnone hoff
    · exact accept_progress count hs hne
    · rw [refuse_progress cause hs, hx]
      nofun

/-! ## Fair runs

Fairness is asked of steps and of the stream alone. Nothing is said about the server, which may be
silent forever. -/

def along (s : Session) (σ : Nat → Event) : Nat → Session
  | 0 => s
  | k + 1 => (s.along σ k).apply (σ k)

/-- Whatever is needed comes again and again. -/
def Fair (s : Session) (σ : Nat → Event) : Prop :=
  ∀ (need : Need) (k : Nat), ∃ j, k ≤ j ∧ need.Met (s.along σ j) (σ j)

theorem along_add (s : Session) (σ : Nat → Event) (k j : Nat) :
    s.along σ (k + j) = (s.along σ k).along (fun i => σ (k + i)) j := by
  induction j with
  | zero => rfl
  | succ j ih => exact congrArg (Session.apply · (σ (k + j))) ih

/-- What is left of a fair run is fair. -/
theorem Fair.tail {σ : Nat → Event} (h : Fair s σ) (k : Nat) :
    Fair (s.along σ k) fun i => σ (k + i) := by
  intro need j
  obtain ⟨i, hi, hmet⟩ := h need (k + j)
  obtain ⟨d, rfl⟩ := Nat.exists_eq_add_of_le (Nat.le_trans (Nat.le_add_right k j) hi)
  exact ⟨d, Nat.le_of_add_le_add_left hi, along_add s σ k d ▸ hmet⟩

/-- In a fair run of events as in `A`, whatever satisfies `P` leads to `Q`, if every such event keeps
`P` or brings `Q` about, and if a measure shrinks unless what is needed stays needed. -/
theorem Fair.leads_to {σ : Nat → Event} {P : Session → Prop} {A Q : Session → Event → Prop}
    {α : Type} {r : α → α → Prop} (hwf : WellFounded r)
    (m : Session → α) (need : Session → Need)
    (hstep : ∀ s e, A s e → P s → Q s e ∨ P (s.apply e) ∧
      (r (m (s.apply e)) (m s) ∨
        m (s.apply e) = m s ∧ need (s.apply e) = need s ∧ ¬ (need s).Met s e))
    (hfair : Fair s σ) (hall : ∀ k, A (s.along σ k) (σ k)) (h : P s) :
    ∃ k, P (s.along σ k) ∧ Q (s.along σ k) (σ k) := by
  have key : ∀ (a : α) (k : Nat), m (s.along σ k) = a → P (s.along σ k) →
      ∃ j, P (s.along σ j) ∧ Q (s.along σ j) (σ j) := by
    intro a
    induction a using hwf.induction with
    | _ a ih =>
      -- What is needed now comes after `d` more events; until then the measure stays or shrinks.
      have chase : ∀ (d k : Nat), m (s.along σ k) = a → P (s.along σ k) →
          (need (s.along σ k)).Met (s.along σ (k + d)) (σ (k + d)) →
          ∃ j, P (s.along σ j) ∧ Q (s.along σ j) (σ j) := by
        intro d
        induction d with
        | zero =>
          intro k hm hP hmet
          rcases hstep _ (σ k) (hall k) hP with hQ | ⟨hP', hr | ⟨-, -, hnot⟩⟩
          · exact ⟨k, hP, hQ⟩
          · exact ih _ (hm ▸ hr) (k + 1) rfl hP'
          · exact absurd hmet hnot
        | succ d ihd =>
          intro k hm hP hmet
          rcases hstep _ (σ k) (hall k) hP with hQ | ⟨hP', hr | ⟨hm', hneed, -⟩⟩
          · exact ⟨k, hP, hQ⟩
          · exact ih _ (hm ▸ hr) (k + 1) rfl hP'
          · refine ihd (k + 1) (hm'.trans hm) hP' ?_
            rw [Nat.add_right_comm, Nat.add_assoc]
            exact hneed ▸ hmet
      intro k hm hP
      obtain ⟨j, hkj, hmet⟩ := hfair (need (s.along σ k)) k
      refine chase (j - k) k hm hP ?_
      rw [Nat.add_sub_cancel' hkj]
      exact hmet
  exact key _ 0 rfl h

def taskAt (i : Nat) : Task :=
  match i % 3 with
  | 0 => .call (i / 3)
  | 1 => .refusal (i / 3)
  | _ => .reader

theorem exists_taskAt (t : Task) : ∃ i, taskAt i = t := by
  cases t with
  | call n => exact ⟨3 * n, by simp [taskAt]⟩
  | refusal n =>
    refine ⟨3 * n + 1, ?_⟩
    have hmod : (3 * n + 1) % 3 = 1 := by omega
    have hdiv : (3 * n + 1) / 3 = n := by omega
    simp [taskAt, hmod, hdiv]
  | reader => exact ⟨2, rfl⟩

/-- A run in which everybody gets a turn again and again: a step, or the stream for one octet. -/
def roundRobin (k : Nat) : Event :=
  if k.unpair.1 % 2 = 0 then .step (taskAt (k.unpair.1 / 2))
  else .accept (taskAt (k.unpair.1 / 2)) 1

theorem roundRobin_fair (s : Session) : Fair s roundRobin := by
  intro need k
  cases need with
  | step t =>
    obtain ⟨i, rfl⟩ := exists_taskAt t
    refine ⟨Nat.pair (2 * i) k, Nat.right_le_pair .., ?_⟩
    simp [Need.Met, roundRobin, Nat.unpair_pair]
  | stream t =>
    obtain ⟨i, rfl⟩ := exists_taskAt t
    refine ⟨Nat.pair (2 * i + 1) k, Nat.right_le_pair .., .inr (.inl ⟨0, ?_⟩)⟩
    have hdiv : (2 * i + 1) / 2 = i := by omega
    simp [roundRobin, Nat.unpair_pair, hdiv]

theorem roundRobin_ne_drop (n k : Nat) : roundRobin k ≠ .drop n := by
  unfold roundRobin
  split <;> nofun

end Session

end LanguageClient
