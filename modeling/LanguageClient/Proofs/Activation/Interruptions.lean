import LanguageClient.Proofs.Activation.Ledger

/-!
# What a dropped call leaves behind

A call that is dropped in the middle of something lets go of the slot, and of the server that it had
in its hands, but nobody sets the phase back. From then on the phase says that a server is being
brought up or wound down although nothing of the kind happens, and it goes on saying so until another
activation gets as far as to change it.

`CutShort` says of a run that the last call that was in the middle of something was dropped there.
**`phase_tells_server_unless_cut_short`** says that this is the only way in which the phase of a
controller at rest can be wrong. Calls that are dropped before they begin or while they wait for the
slot do no harm.
-/

namespace LanguageClient.Activation

/-- What a turn does to the phase and the server: in the middle of something there is no server and
the phase says what is going on, at the end of it the phase fits the server, and a call that never
was in the middle of anything changes neither. -/
theorem Turn.poise {n : Nat} {v v' : View} {deeds : List Deed} (ht : Turn n v deeds v')
    (h : v.stage.midway = true → v.server = none ∧ v.phase = v.stage.phase) :
    (v'.stage.midway = true → v'.server = none ∧ v'.phase = v'.stage.phase) ∧
    (v'.stage.midway = false → v.stage.midway = true → v'.phase = phaseAtRest v'.server) ∧
    (v'.stage.midway = false → v.stage.midway = false →
      v'.phase = v.phase ∧ v'.server = v.server) := by
  cases ht <;> simp_all [Stage.midway, Stage.phase, phaseAtRest]

namespace Controller

def AtRest (c : Controller) : Prop :=
  ∀ n stage, c.calls.get? n = some stage → stage.midway = false

/-- The last call that was in the middle of something was dropped there, at this stage. -/
def CutShort (events : List Event) (stage : Stage) : Prop :=
  ∃ before n after, events = before ++ .drop n :: after ∧
    (run {} before).calls.get? n = some stage ∧ stage.midway = true ∧
    ∀ front, front <+: after → (run {} (before ++ .drop n :: front)).AtRest

variable {events : List Event} {e : Event} {c c' : Controller} {stage : Stage}

theorem CutShort.atRest (h : CutShort events stage) : (run {} events).AtRest := by
  obtain ⟨before, n, after, rfl, -, -, hrest⟩ := h
  exact hrest after (List.prefix_refl after)

theorem CutShort.snoc (h : CutShort events stage) (hrest : (run {} (events ++ [e])).AtRest) :
    CutShort (events ++ [e]) stage := by
  obtain ⟨before, n, after, rfl, hn, hmid, hfronts⟩ := h
  refine ⟨before, n, after ++ [e], by simp, hn, hmid, fun front hfront => ?_⟩
  rcases List.prefix_concat_iff.mp hfront with rfl | hfront
  · simpa using hrest
  · exact hfronts front hfront

theorem CutShort.of_snoc (h : CutShort (events ++ [e]) stage) :
    CutShort events stage ∨
      ∃ n, e = .drop n ∧ (run {} events).calls.get? n = some stage ∧ stage.midway = true := by
  obtain ⟨before, n, after, heq, hn, hmid, hfronts⟩ := h
  rcases List.eq_nil_or_concat after with rfl | ⟨after, last, rfl⟩
  · obtain ⟨rfl, hlast⟩ := List.append_inj' heq rfl
    exact .inr ⟨n, List.singleton_inj.mp hlast, hn, hmid⟩
  · have heq : events ++ [e] = (before ++ .drop n :: after) ++ [last] := by simpa using heq
    obtain ⟨rfl, -⟩ := List.append_inj' heq rfl
    exact .inl ⟨before, n, after, rfl, hn, hmid,
      fun front hfront => hfronts front (hfront.trans (by simp))⟩

/-- The phase and the server fit together, as far as a run was not cut short. -/
structure Poised (events : List Event) (c : Controller) : Prop where
  reached : c = run {} events
  orderly : c.Orderly
  atWork : ∀ n stage, c.calls.get? n = some stage → stage.midway = true →
    c.server = none ∧ c.phase = stage.phase
  cut : ∀ stage, CutShort events stage → c.server = none ∧ c.phase = stage.phase
  whole : c.AtRest → (∀ stage, ¬ CutShort events stage) → c.phase = phaseAtRest c.server

theorem Poised.initial : Poised [] {} where
  reached := rfl
  orderly := Orderly.initial
  atWork n stage hn := by simp [Table.get?] at hn
  cut stage h := by
    obtain ⟨before, n, after, heq, -⟩ := h
    simp at heq
  whole _ _ := rfl

variable {n : Nat} {stage' : Stage}

/-- Whoever is in the middle of something holds the slot, so there is one at most. -/
theorem Orderly.midway_unique (hc : c.Orderly) {m : Nat} (hn : c.calls.get? n = some stage)
    (hmid : stage.midway = true) (hm : c.calls.get? m = some stage') (hmid' : stage'.midway = true) :
    m = n :=
  hc.eq_holder (hc.working n stage hn hmid) hm hmid'

theorem Poised.cut_snoc (hp : Poised events c) (hphase : c'.phase = c.phase)
    (hserver : c'.server = c.server) (hcut : CutShort (events ++ [e]) stage) :
    c'.server = none ∧ c'.phase = stage.phase := by
  rw [hphase, hserver]
  rcases hcut.of_snoc with hcut | ⟨n, -, hn, hmid⟩
  · exact hp.cut stage hcut
  · exact hp.atWork n stage (hp.reached ▸ hn) hmid

theorem Poised.aside (hp : Poised events c) (hreached : c' = run {} (events ++ [e]))
    (ho : c'.Orderly) (hphase : c'.phase = c.phase) (hserver : c'.server = c.server)
    (hsame : ∀ m stage, stage.midway = true →
      (c'.calls.get? m = some stage ↔ c.calls.get? m = some stage)) :
    Poised (events ++ [e]) c' where
  reached := hreached
  orderly := ho
  atWork m stage hm hmid := by
    rw [hphase, hserver]
    exact hp.atWork m stage ((hsame m stage hmid).mp hm) hmid
  cut stage := hp.cut_snoc hphase hserver
  whole hnow hwhole := by
    rw [hphase, hserver]
    refine hp.whole (fun m stage hm => ?_) fun stage hcut =>
      hwhole stage (hcut.snoc (hreached ▸ hnow))
    cases hmid : stage.midway with
    | false => rfl
    | true => exact hmid.symm.trans (hnow m stage ((hsame m stage hmid).mpr hm))

theorem midway_set (hcalls : c'.calls = c.calls.set n stage')
    (hold : ∀ old, c.calls.get? n = some old → old.midway = false) (hnew : stage'.midway = false)
    (m : Nat) (stage : Stage) (hmid : stage.midway = true) :
    c'.calls.get? m = some stage ↔ c.calls.get? m = some stage := by
  rw [hcalls, Table.get?_set]
  by_cases hm : m = n
  · subst hm
    rw [if_pos rfl]
    constructor
    · rintro ⟨⟩
      rw [hnew] at hmid
      cases hmid
    · intro h
      rw [hold stage h] at hmid
      cases hmid
  · rw [if_neg hm]

theorem Poised.turned (hp : Poised events c) (hreached : c' = run {} (events ++ [e]))
    (hdrop : ∀ n, e ≠ .drop n) (ho : c'.Orderly) {deeds : List Deed}
    (hn : c.calls.get? n = some stage) (ht : Turned c n stage c' deeds stage') :
    Poised (events ++ [e]) c' := by
  obtain ⟨hbusy, hdone, hidle⟩ := ht.turn.poise (hp.atWork n stage hn)
  have hself := ht.self
  cases hnew : stage'.midway with
  | true =>
    -- The holder is in the middle of something, so the controller is not at rest.
    have hnot : ¬ c'.AtRest := fun hrest => by
      rw [hrest n stage' hself] at hnew
      cases hnew
    refine ⟨hreached, ho, fun m st hm hmid => ?_,
      fun st hcut => absurd (hreached ▸ hcut.atRest) hnot, fun hrest => absurd hrest hnot⟩
    obtain rfl := ho.midway_unique hself hnew hm hmid
    rw [hself, Option.some.injEq] at hm
    exact hm ▸ hbusy hnew
  | false =>
    cases hold : stage.midway with
    | false =>
      obtain ⟨hphase, hserver⟩ := hidle hnew hold
      refine hp.aside hreached ho hphase hserver (midway_set ht.calls (fun old h => ?_) hnew)
      rw [hn, Option.some.injEq] at h
      exact h ▸ hold
    | true =>
      -- Something has come to its end, and there was nobody else.
      refine ⟨hreached, ho, fun m st hm hmid => ?_, fun st hcut => ?_, fun _ _ => hdone hnew hold⟩
      · rw [ht.calls] at hm
        rcases Table.get?_set_eq_some.mp hm with ⟨-, rfl⟩ | ⟨hne, hm⟩
        · cases hnew.symm.trans hmid
        · exact absurd (hp.orderly.midway_unique hn hold hm hmid) hne
      · rcases hcut.of_snoc with hcut | ⟨m, he, -⟩
        · have hrest := hcut.atRest
          rw [← hp.reached] at hrest
          rw [hrest n stage hn] at hold
          cases hold
        · exact absurd he (hdrop m)

/-- A call is dropped. In the middle of something it leaves the phase behind. -/
theorem Poised.dropped (hp : Poised events c) (hn : c.calls.get? n = some stage)
    (hreached : (c.leaveQueue n).move n .dropped = run {} (events ++ [Event.drop n]))
    (ho : ((c.leaveQueue n).move n .dropped).Orderly) :
    Poised (events ++ [Event.drop n]) ((c.leaveQueue n).move n .dropped) := by
  cases hmid : stage.midway with
  | false =>
    refine hp.aside hreached ho rfl rfl (midway_set (n := n) rfl (fun old h => ?_) rfl)
    rw [hn, Option.some.injEq] at h
    exact h ▸ hmid
  | true =>
    have hnone : ∀ m st, ((c.leaveQueue n).move n .dropped).calls.get? m = some st →
        st.midway = false := by
      intro m st hm
      rcases Table.get?_set_eq_some.mp hm with ⟨-, rfl⟩ | ⟨hne, hm⟩
      · rfl
      · cases hst : st.midway with
        | false => rfl
        | true => exact absurd (hp.orderly.midway_unique hn hmid hm hst) hne
    have hcut : CutShort (events ++ [Event.drop n]) stage := by
      refine ⟨events, n, [], rfl, hp.reached ▸ hn, hmid, fun front hfront => ?_⟩
      rw [List.prefix_nil.mp hfront, ← hreached]
      exact hnone
    refine ⟨hreached, ho, fun m st hm hst => ?_, fun st => hp.cut_snoc rfl rfl,
      fun _ hwhole => absurd hcut (hwhole stage)⟩
    rw [hnone m st hm] at hst
    cases hst

theorem Poised.apply (hp : Poised events c) (e : Event) : Poised (events ++ [e]) (c.apply e) := by
  have hreached : c.apply e = run {} (events ++ [e]) := by
    rw [run_append, ← hp.reached]
    rfl
  have hchange := apply_change hp.orderly e
  have ho := hp.orderly.change hchange
  generalize c.apply e = c' at *
  cases hchange with
  | nothing => exact hp.aside hreached ho rfl rfl fun _ _ _ => Iff.rfl
  | called hn =>
    refine hp.aside hreached ho rfl rfl (midway_set rfl (fun old h => ?_) rfl)
    rw [hn] at h
    cases h
  | atOnce hn _ | joined hn =>
    refine hp.aside hreached ho rfl rfl (midway_set rfl (fun old h => ?_) rfl)
    rw [hn, Option.some.injEq] at h
    exact h ▸ rfl
  | turned _ hn _ ht hdrop => exact hp.turned hreached hdrop ho hn ht
  | dropped hn hs => exact hp.dropped hn hreached ho

theorem run_poised (events : List Event) : Poised events (run {} events) :=
  run_induction Poised.initial fun _ e _ _ hp => hp.apply e

/-- **The phase tells whether there is a server, unless a call was cut short.** Whenever nobody is in
the middle of anything, whatever calls have been dropped: if the last call that was in the middle of
something was dropped there, there is no server and the phase still says that one is brought up or
wound down; otherwise the phase fits the server. So a deactivation that need not be is turned away
exactly if there is no server and no call was cut short. -/
theorem phase_tells_server_unless_cut_short (events : List Event)
    (hrest : (run {} events).AtRest) :
    let c := run {} events
    ((∃ stage, CutShort events stage) →
      c.server = none ∧ (c.phase = .activating ∨ c.phase = .deactivating)) ∧
    ((¬ ∃ stage, CutShort events stage) → c.phase = phaseAtRest c.server) ∧
    (c.answerAtOnce .deactivateIfBusy = some .notBusy ↔
      c.server = none ∧ ¬ ∃ stage, CutShort events stage) := by
  intro c
  have hp : Poised events c := run_poised events
  have hcut : (∃ stage, CutShort events stage) →
      c.server = none ∧ (c.phase = .activating ∨ c.phase = .deactivating) := by
    rintro ⟨stage, hstage⟩
    obtain ⟨hserver, hphase⟩ := hp.cut stage hstage
    refine ⟨hserver, ?_⟩
    rw [hphase]
    cases stage <;> simp [Stage.phase]
  have hwhole : (¬ ∃ stage, CutShort events stage) → c.phase = phaseAtRest c.server :=
    fun hnone => hp.whole hrest fun stage hstage => hnone ⟨stage, hstage⟩
  refine ⟨hcut, hwhole, ?_⟩
  have hturned : c.answerAtOnce .deactivateIfBusy = some .notBusy ↔ c.phase = .notActivated := by
    simp [answerAtOnce]
  rw [hturned]
  by_cases h : ∃ stage, CutShort events stage
  · rcases (hcut h).2 with hphase | hphase <;> simp [hphase, h]
  · rw [hwhole h]
    cases c.server <;> simp [phaseAtRest, h]

/-- An activation that is dropped while it connects to a server. -/
def abandoned : List Event :=
  [.call 0 (.activate (.attached "127.0.0.1" 2077)), .step 0, .step 0, .drop 0]

/-- An activation that succeeds, and a deactivation that is dropped before it begins. -/
def reconsidered : List Event :=
  [.call 0 (.activate (.attached "127.0.0.1" 2077)), .step 0, .step 0,
    .answer 0 (.connected (.ok ())), .call 1 .deactivateIfBusy, .step 1,
    .answer 0 (.opened (.ok ())), .drop 1]

theorem phase_tells_server_after_early_drop :
    (run {} reconsidered).AtRest ∧ (run {} reconsidered).server = some ⟨0, false⟩ ∧
      (run {} reconsidered).phase = .activated ∧ ¬ ∃ stage, CutShort reconsidered stage := by
  have hrest : (run {} reconsidered).AtRest := by
    intro n stage hn
    have hall : ∀ e ∈ (run {} reconsidered).calls.entries, e.2.midway = false := by
      rw [show (run {} reconsidered).calls.entries = [(0, .over .activated), (1, .dropped)] from rfl]
      simp [Stage.midway]
    exact hall (n, stage) (Table.mem_of_get? hn)
  refine ⟨hrest, rfl, rfl, fun hcut => ?_⟩
  obtain ⟨hserver, -⟩ := (phase_tells_server_unless_cut_short reconsidered hrest).1 hcut
  cases hserver

/-- A dropped activation wedges the controller: nobody is in the middle of anything and there is no
server, but a deactivation that need not be is not turned away, and when it is over nothing has
changed. -/
theorem abandoned_activation_wedges :
    let c := run {} abandoned
    let later := c.run [.call 1 .deactivateIfBusy, .step 1, .step 1]
    c.calls.entries = [(0, .dropped)] ∧ c.server = none ∧ c.phase = .activating ∧
      later.outcomeOf 1 = some (.deactivated .idle) ∧ later.phase = .activating ∧
      later.answerAtOnce .deactivateIfBusy = none :=
  ⟨rfl, rfl, rfl, rfl, rfl, rfl⟩

end Controller

end LanguageClient.Activation
