import LanguageClient.Proofs.Session.Pending
import LanguageClient.Proofs.Session.Stop

/-!
# How a session is drained

The call that stops a session surveys the outstanding requests, at once and then every ten
milliseconds, until there are none or the window has elapsed; only then does it ask the server to
shut down. `surveys` is the record of this, and `Drain` says what it tells: the drain goes on as
long as every survey has found requests within the window, and the first that does not is the last.
If the clock never runs past the moment of the next survey (`staysOnTime`), they stand on the grid
of multiples of the interval (`Regular`).

What the last survey has found is still true when the octets of the last request go out (`Gate`),
since a number that has left the table never comes back (`Shift.gone`); and nobody gets into the
table any more who had not been let in before (`View.Course.mayRegister`).
-/

namespace LanguageClient

def Stage.hasDrained : Stage → Bool
  | .fresh _ | .draining _ _ _ => false
  | _ => true

/-- Whether a call at this stage can come to register a request even if nobody is let in any
more. -/
def Stage.mayRegister : Stage → Bool
  | .fresh .opening | .admitted (.request _ _) | .working (.exchange (.fresh _ _)) _ _ => true
  | .draining _ _ _ | .drained _ => true
  | _ => false

/-- Whether a call at this stage is a user's that has been let in, and is about to register its
request. -/
def Stage.isLetIn : Stage → Bool
  | .admitted (.request _ _) => true
  | .working (.exchange (.fresh _ _)) deadline purpose => purpose.role deadline == .visits
  | _ => false

theorem Stage.Follows.drained {purpose : Purpose} {stage : Stage} (h : Stage.Follows purpose stage) :
    stage.hasDrained = true ∧ stage.mayRegister = false := by
  cases h <;> exact ⟨rfl, rfl⟩

namespace Session

namespace View

variable {h k h' : View} {n m : Nat} {stage next : Stage} {e : Event} {hs : List Happening}
  {out : List Dispatch}

theorem Moves.hasDrained (hm : Moves h n stage hs out k next) (hd : stage.hasDrained = true) :
    next.hasDrained = true := by
  cases hm with
  | ends he => exact (Purpose.follows_next ..).drained.1
  | expires hblocked hlate => exact (Purpose.follows_late ..).drained.1
  | opens | stopsIdle | halts | admits | rejects | looks | drains => cases hd
  | _ => rfl

theorem Course.hasDrained (hcourse : h.Course e hs out h') (hn : h.stage n = some stage)
    (hd : stage.hasDrained = true) (hdrop : e ≠ .drop n) :
    ∃ next, h'.stage n = some next ∧ next.hasDrained = true := by
  cases hcourse.lot hn hdrop with
  | stays hstage _ => exact ⟨stage, hstage, hd⟩
  | moves hm => exact ⟨_, put_stage_self .., hm.hasDrained hd⟩
  | pours id hstage => exact ⟨_, put_stage_self .., rfl⟩
  | refuses id hstage => exact ⟨_, put_stage_self .., (Purpose.follows_next ..).drained.1⟩

theorem Works.mayRegister {work work' : Work} {deadline : Option Nat} {purpose : Purpose}
    (hw : Works h n work hs out k work' purpose)
    (hnext : (Stage.working work' deadline purpose).mayRegister = true) :
    (Stage.working work deadline purpose).mayRegister = true := by
  cases hw with
  | registers => rfl
  | tests => cases hnext
  | @joins id => cases id <;> cases hnext
  | @takes id => cases id <;> cases hnext
  | written => cases hnext

theorem Moves.mayRegister (hm : Moves h n stage hs out k next)
    (hstate : h.state = .stopping ∨ h.state = .stopped) (hnext : next.mayRegister = true) :
    stage.mayRegister = true := by
  cases hm with
  | halts hprevious hbusy => rcases hstate with hs | hs <;> simp [← hprevious, hs] at hbusy
  | admits hask hrunning hup => rcases hstate with hs | hs <;> cases hs.symm.trans hrunning
  | works hw => exact hw.mayRegister hnext
  | ends he => cases (Purpose.follows_next ..).drained.2.symm.trans hnext
  | expires hblocked hlate => cases (Purpose.follows_late ..).drained.2.symm.trans hnext
  | opens | asks | looks | drains | departs => rfl
  | _ => cases hnext

/-- Once nobody is let in any more, nobody gets to a place from where requests are registered. -/
theorem Course.mayRegister (hcourse : h.Course e hs out h')
    (hstate : h.state = .stopping ∨ h.state = .stopped) {introduced : Bool}
    (hproper : e.Proper introduced) (hm : h'.stage m = some next)
    (hnext : next.mayRegister = true) :
    ∃ stage, h.stage m = some stage ∧ stage.mayRegister = true := by
  have hput : ∀ {k : View} {n : Nat} {stage : Option Stage}, k.stage = h.stage →
      (k.put n stage).stage m = some next →
      (stage = some next → ∃ stage, h.stage n = some stage ∧ stage.mayRegister = true) →
      ∃ stage, h.stage m = some stage ∧ stage.mayRegister = true := by
    intro k n stage hk hm hself
    rcases put_stage_eq_some.mp hm with ⟨rfl, heq⟩ | ⟨-, hm⟩
    · exact hself heq
    · exact ⟨next, hk ▸ hm, hnext⟩
  cases hcourse with
  | @called n ask hn =>
    refine hput rfl hm fun heq => ?_
    obtain rfl := Option.some.inj heq
    cases ask with
    | opening => exact absurd rfl hproper.2.1
    | _ => cases hnext
  | dropped hn => exact hput rfl hm nofun
  | @moved n stage next' hs out k hn hmove =>
    refine hput hmove.around.stage hm fun heq => ⟨stage, hn, hmove.mayRegister hstate ?_⟩
    exact Option.some.inj heq ▸ hnext
  | poured id hn =>
    refine hput rfl hm fun heq => ?_
    obtain rfl := Option.some.inj heq
    cases id <;> cases hnext
  | refused id hn =>
    refine hput rfl hm fun heq => ?_
    rw [← Option.some.inj heq, (Purpose.follows_next ..).drained.2] at hnext
    cases hnext
  | _ => exact ⟨next, hm, hnext⟩

theorem Course.registered {id : Nat} (hcourse : h.Course e hs out h')
    (hr : .registered m id ∈ hs) : ∃ stage, h.stage m = some stage ∧ stage.mayRegister = true := by
  cases hcourse with
  | quiet hheard =>
    obtain ⟨r, heq⟩ := hheard _ hr
    cases heq
  | @moved n stage next hs out k hn hm =>
    cases hm with
    | works hw =>
      cases hw with
      | registers =>
        obtain ⟨rfl, -⟩ := Happening.registered.inj (List.mem_singleton.mp hr)
        exact ⟨_, hn, rfl⟩
      | _ => cases hr
    | ends he =>
      cases he with
      | gone id' hhead hwriter =>
        obtain ⟨_, -, heq⟩ := List.mem_map.mp hr
        cases heq
      | written => cases hr
      | _ => cases List.mem_singleton.mp hr
    | _ => cases hr
  | refused id' hn =>
    obtain ⟨_, -, heq⟩ := List.mem_map.mp hr
    cases heq
  | _ => cases hr

theorem Lot.stays_of_draining {previous : SessionState} {deadline wakeAt : Nat}
    (hlot : Lot h n (.draining previous deadline wakeAt) e hs h') (he : e ≠ .step (.call n)) :
    h'.stage n = some (.draining previous deadline wakeAt) := by
  cases hlot with
  | stays hstage _ => exact hstage
  | moves hm => exact absurd rfl he
  | pours id hstage => cases id <;> cases hstage
  | refuses id hstage => cases id <;> cases hstage

theorem Course.now_le (hcourse : h.Course e hs out h') : h.now ≤ h'.now := by
  cases hcourse with
  | elapsed hnow => exact hnow
  | moved hn hm => exact Nat.le_of_eq hm.around.now.symm
  | _ => exact Nat.le_refl _

end View

/-! ## Surveys

A drain is a list of surveys, the last of which finds nothing outstanding or the deadline passed. -/

/-- A survey of the outstanding requests: when, and how many there were. -/
structure Survey where
  time : Nat
  outstanding : Nat
  deriving DecidableEq, Repr

/-- Whether there is nothing left to wait for: no request is outstanding, or the deadline has
passed. -/
def Survey.isLast (deadline : Nat) (survey : Survey) : Bool :=
  survey.outstanding == 0 || decide (deadline ≤ survey.time)

def surveyBy (s : Session) (n : Nat) : Event → Option Survey
  | .step (.call m) =>
    match s.stageOf n with
    | some (.draining _ _ wakeAt) =>
      if m = n ∧ wakeAt ≤ s.now then some ⟨s.now, s.inFlight⟩ else none
    | _ => none
  | _ => none

def surveys (s : Session) (n : Nat) : List Event → List Survey
  | [] => []
  | e :: events => (s.surveyBy n e).toList ++ (s.apply e).surveys n events

variable {s : Session} {e : Event} {n : Nat} {events : List Event} {stage : Stage}

inductive Drains (s : Session) (n : Nat) (previous : SessionState) (deadline wakeAt : Nat)
    (e : Event) : Prop where
  | waits (hsurvey : s.surveyBy n e = none)
      (hstage : (s.apply e).stageOf n = some (.draining previous deadline wakeAt))
  | goesOn (hsurvey : s.surveyBy n e = some ⟨s.now, s.inFlight⟩) (hwake : wakeAt ≤ s.now)
      (hlast : Survey.isLast deadline ⟨s.now, s.inFlight⟩ = false)
      (hstage : (s.apply e).stageOf n =
        some (.draining previous deadline (s.now + drainInterval.nanos)))
  | ends (hsurvey : s.surveyBy n e = some ⟨s.now, s.inFlight⟩) (hwake : wakeAt ≤ s.now)
      (hlast : Survey.isLast deadline ⟨s.now, s.inFlight⟩ = true)
      (hstage : (s.apply e).stageOf n = some (.drained previous))

variable {previous : SessionState} {deadline wakeAt : Nat}

theorem drainCheck_stageOf (previous : SessionState) (deadline : Nat)
    (hn : s.stageOf n = some stage) :
    (s.drainCheck n previous deadline).stageOf n =
      some (if Survey.isLast deadline ⟨s.now, s.inFlight⟩ then .drained previous
        else .draining previous deadline (s.now + drainInterval.nanos)) := by
  unfold drainCheck
  by_cases hgo : 0 < s.inFlight ∧ s.now < deadline
  · have hlast : Survey.isLast deadline ⟨s.now, s.inFlight⟩ = false := by
      simp [Survey.isLast, Nat.ne_of_gt hgo.1, hgo.2]
    rw [if_pos hgo, hlast]
    exact stageOf_moved hn
  · have hlast : Survey.isLast deadline ⟨s.now, s.inFlight⟩ = true := by
      simp only [Survey.isLast, Bool.or_eq_true, beq_iff_eq, decide_eq_true_eq]
      omega
    rw [if_neg hgo, hlast, if_pos rfl]
    split
    · have hnoted : ∀ level message fields,
          (s.note level message fields).stageOf n = some stage := fun _ _ _ => hn
      exact stageOf_moved (hnoted ..)
    · exact stageOf_moved hn

theorem apply_draining (hn : s.stageOf n = some (.draining previous deadline wakeAt)) :
    s.apply (.step (.call n)) =
      if wakeAt ≤ s.now then s.drainCheck n previous deadline else s := by
  obtain ⟨mailbox, hc⟩ := exists_at hn
  by_cases hwake : wakeAt ≤ s.now <;> simp [Session.apply, step, callStep, hc, hwake]

theorem drains (hl : Lined s) (hn : s.stageOf n = some (.draining previous deadline wakeAt))
    (hdrop : e ≠ .drop n) : Drains s n previous deadline wakeAt e := by
  by_cases he : e = .step (.call n)
  · subst he
    have happly := apply_draining hn
    by_cases hwake : wakeAt ≤ s.now
    · have hsurvey : s.surveyBy n (.step (.call n)) = some ⟨s.now, s.inFlight⟩ := by
        simp [surveyBy, hn, hwake]
      rw [if_pos hwake] at happly
      have hstage := drainCheck_stageOf previous deadline hn
      rw [← happly] at hstage
      cases hlast : Survey.isLast deadline ⟨s.now, s.inFlight⟩ with
      | false => exact .goesOn hsurvey hwake hlast (by rw [hstage, hlast]; rfl)
      | true => exact .ends hsurvey hwake hlast (by rw [hstage, hlast]; rfl)
    · refine .waits (by simp [surveyBy, hn, hwake]) ?_
      rw [happly, if_neg hwake, hn]
  · have hsurvey : s.surveyBy n e = none := by
      unfold surveyBy
      split
      · split
        · exact if_neg fun h => he (by rw [h.1])
        · rfl
      · rfl
    exact .waits hsurvey (((course hl e).lot hn hdrop).stays_of_draining he)

theorem surveyBy_of_hasDrained (hn : s.stageOf n = some stage) (hd : stage.hasDrained = true)
    (e : Event) : s.surveyBy n e = none := by
  unfold surveyBy
  split
  · rw [hn]
    split
    · next heq =>
      obtain rfl := Option.some.inj heq
      cases hd
    · rfl
  · rfl

/-- How far call `n` has come with draining its session, after `surveys`: it goes on as long as no
survey was the last one, and the first that was has ended it. -/
inductive Drain (deadline : Nat) (s : Session) (n : Nat) (surveys : List Survey) : Prop where
  | goes {wakeAt : Nat} (hstage : s.stageOf n = some (.draining .running deadline wakeAt))
      (hgoing : ∀ survey ∈ surveys, survey.isLast deadline = false)
  | ended {stage : Stage} {earlier : List Survey} {last : Survey} (hstage : s.stageOf n = some stage)
      (hd : stage.hasDrained = true) (hsurveys : surveys = earlier ++ [last])
      (hgoing : ∀ survey ∈ earlier, survey.isLast deadline = false)
      (hlast : last.isLast deadline = true)

variable {found : List Survey}

theorem Drain.apply (h : Drain deadline s n found) (hl : Lined s) (hdrop : e ≠ .drop n) :
    Drain deadline (s.apply e) n (found ++ (s.surveyBy n e).toList) := by
  cases h with
  | goes hstage hgoing =>
    cases drains hl hstage hdrop with
    | waits hsurvey hstage' =>
      rw [hsurvey, Option.toList_none, List.append_nil]
      exact .goes hstage' hgoing
    | goesOn hsurvey hwake hlast hstage' =>
      rw [hsurvey, Option.toList_some]
      refine .goes hstage' fun survey hsurvey => ?_
      rcases List.mem_append.mp hsurvey with hmem | hmem
      · exact hgoing survey hmem
      · exact List.mem_singleton.mp hmem ▸ hlast
    | ends hsurvey hwake hlast hstage' =>
      rw [hsurvey, Option.toList_some]
      exact .ended hstage' rfl rfl hgoing hlast
  | ended hstage hd hsurveys hgoing hlast =>
    obtain ⟨next, hnext, hd'⟩ := (course hl e).hasDrained hstage hd hdrop
    rw [surveyBy_of_hasDrained hstage hd, Option.toList_none, List.append_nil]
    exact .ended hnext hd' hsurveys hgoing hlast

theorem Drain.run (h : Drain deadline s n found) (hl : Lined s) (hkeep : .drop n ∉ events) :
    Drain deadline (s.run events) n (found ++ s.surveys n events) := by
  induction events generalizing s found with
  | nil =>
    rw [surveys, List.append_nil]
    exact h
  | cons e events ih =>
    obtain ⟨hdrop, hkeep'⟩ := List.ne_and_not_mem_of_not_mem_cons hkeep
    rw [surveys, ← List.append_assoc]
    exact ih (h.apply hl (Ne.symm hdrop)) (hl.apply e) hkeep'

/-! ## Surveys on time

Only here does the clock matter: if it never runs past the moment of the next survey, the surveys
stand on the grid. -/

/-- Whether the clock has not run past the moment of the next survey that call `n` takes. -/
def isOnTime (s : Session) (n : Nat) : Bool :=
  match s.stageOf n with
  | some (.draining _ _ wakeAt) => decide (s.now ≤ wakeAt)
  | _ => true

/-- Whether the clock never runs past such a moment. -/
def staysOnTime (s : Session) (n : Nat) : List Event → Bool
  | [] => s.isOnTime n
  | e :: events => s.isOnTime n && (s.apply e).staysOnTime n events

/-- The surveys stand at the multiples of the interval, and so will the next one. -/
structure Regular (begun : Nat) (s : Session) (n : Nat) (surveys : List Survey) : Prop where
  times : ∀ i survey, surveys[i]? = some survey → survey.time = begun + i * drainInterval.nanos
  next : ∀ previous deadline wakeAt, s.stageOf n = some (.draining previous deadline wakeAt) →
    wakeAt = begun + surveys.length * drainInterval.nanos

variable {begun : Nat}

theorem now_le_of_isOnTime (h : s.isOnTime n = true)
    (hn : s.stageOf n = some (.draining previous deadline wakeAt)) : s.now ≤ wakeAt := by
  simpa [isOnTime, hn] using h

theorem Regular.times_concat (h : Regular begun s n found)
    (hn : s.stageOf n = some (.draining previous deadline wakeAt)) (htime : s.isOnTime n = true)
    (hwake : wakeAt ≤ s.now) :
    s.now = begun + found.length * drainInterval.nanos ∧
      ∀ i survey, (found ++ [Survey.mk s.now s.inFlight])[i]? = some survey →
        survey.time = begun + i * drainInterval.nanos := by
  have hnow : s.now = begun + found.length * drainInterval.nanos :=
    (Nat.le_antisymm (now_le_of_isOnTime htime hn) hwake).trans (h.next _ _ _ hn)
  refine ⟨hnow, fun i survey hsurvey => ?_⟩
  rcases Nat.lt_or_ge i found.length with hi | hi
  · rw [List.getElem?_append_left hi] at hsurvey
    exact h.times i survey hsurvey
  · rw [List.getElem?_append_right hi] at hsurvey
    have hlt : i - found.length < 1 := (List.getElem?_eq_some_iff.mp hsurvey).1
    obtain rfl : i = found.length := by omega
    rw [Nat.sub_self] at hsurvey
    exact Option.some.inj hsurvey ▸ hnow

theorem Regular.apply (h : Regular begun s n found) (hd : Drain deadline s n found) (hl : Lined s)
    (hdrop : e ≠ .drop n) (htime : s.isOnTime n = true) :
    Regular begun (s.apply e) n (found ++ (s.surveyBy n e).toList) := by
  cases hd with
  | goes hstage hgoing =>
    cases drains hl hstage hdrop with
    | waits hsurvey hstage' =>
      rw [hsurvey, Option.toList_none, List.append_nil]
      exact ⟨h.times, fun _ _ _ hn => h.next _ _ _ (hstage.trans (hstage'.symm.trans hn))⟩
    | goesOn hsurvey hwake hlast hstage' =>
      obtain ⟨hnow, htimes⟩ := h.times_concat hstage htime hwake
      rw [hsurvey, Option.toList_some]
      refine ⟨htimes, fun _ _ _ hn => ?_⟩
      obtain ⟨-, -, rfl⟩ := Stage.draining.inj (Option.some.inj (hstage'.symm.trans hn))
      rw [hnow, List.length_append, List.length_singleton, Nat.succ_mul, Nat.add_assoc]
    | ends hsurvey hwake hlast hstage' =>
      rw [hsurvey, Option.toList_some]
      refine ⟨(h.times_concat hstage htime hwake).2, fun _ _ _ hn => ?_⟩
      cases hstage'.symm.trans hn
  | ended hstage hd hsurveys hgoing hlast =>
    obtain ⟨stage', hnext, hd'⟩ := (course hl e).hasDrained hstage hd hdrop
    rw [surveyBy_of_hasDrained hstage hd, Option.toList_none, List.append_nil]
    refine ⟨h.times, fun _ _ _ hn => ?_⟩
    obtain rfl := Option.some.inj (hn.symm.trans hnext)
    cases hd'

theorem Regular.run (h : Regular begun s n found) (hd : Drain deadline s n found) (hl : Lined s)
    (hkeep : .drop n ∉ events) (htime : s.staysOnTime n events = true) :
    Regular begun (s.run events) n (found ++ s.surveys n events) ∧
      (s.run events).isOnTime n = true := by
  induction events generalizing s found with
  | nil =>
    rw [surveys, List.append_nil]
    exact ⟨h, htime⟩
  | cons e events ih =>
    obtain ⟨hdrop, hkeep'⟩ := List.ne_and_not_mem_of_not_mem_cons hkeep
    rw [staysOnTime, Bool.and_eq_true] at htime
    rw [surveys, ← List.append_assoc]
    exact ih (h.apply hd hl (Ne.symm hdrop) htime.1) (hd.apply hl (Ne.symm hdrop)) (hl.apply e)
      hkeep' htime.2

/-! ## Requests that are gone

A number that is not in the table does not come back, so it is enough to know that the table was
empty once. -/

theorem Shift.gone {r r' : Registry} {hs : List Happening} {id : Nat} (hshift : Shift r hs r')
    (hold : id < r.next) (hgone : r.pending.get? id = none) : r'.pending.get? id = none := by
  cases hget : r'.pending.get? id with
  | none => rfl
  | some m =>
    rcases hshift.pending_origin hget with hwaits | ⟨-, rfl⟩
    · cases hgone.symm.trans hwaits
    · exact absurd hold (Nat.lt_irrefl _)

theorem pending_of_inFlight (h : s.inFlight = 0) (id : Nat) : s.pending.get? id = none := by
  rw [Table.get?, List.length_eq_zero_iff.mp h]
  rfl

/-- Call `n` drains its session, or it has drained it: then the deadline has passed, or no request
with a number below `bound` is outstanding. -/
structure Gate (deadline bound : Nat) (s : Session) (n : Nat) : Prop where
  sound : Sound s.registry
  old : bound ≤ s.ids.next
  stage : (∃ wakeAt, s.stageOf n = some (.draining .running deadline wakeAt)) ∨
    ∃ stage, s.stageOf n = some stage ∧ stage.hasDrained = true ∧
      (deadline ≤ s.now ∨ ∀ id < bound, s.pending.get? id = none)

variable {bound : Nat}

theorem Gate.apply (h : Gate deadline bound s n) (hl : Lined s) (hdrop : e ≠ .drop n) :
    Gate deadline bound (s.apply e) n := by
  have hshift := (apply_change s e).shift
  have hgone : (∀ id < bound, s.pending.get? id = none) →
      ∀ id < bound, (s.apply e).pending.get? id = none := fun hgone id hid =>
    hshift.gone (Nat.lt_of_lt_of_le hid h.old) (hgone id hid)
  have hnow : s.now ≤ (s.apply e).now := (course hl e).now_le
  refine ⟨h.sound.shift hshift, Nat.le_trans h.old hshift.next_le, ?_⟩
  rcases h.stage with ⟨wakeAt, hstage⟩ | ⟨stage, hstage, hd, hclear⟩
  · cases drains hl hstage hdrop with
    | waits hsurvey hstage' => exact .inl ⟨wakeAt, hstage'⟩
    | goesOn hsurvey hwake hlast hstage' => exact .inl ⟨_, hstage'⟩
    | ends hsurvey hwake hlast hstage' =>
      refine .inr ⟨_, hstage', rfl, ?_⟩
      simp only [Survey.isLast, Bool.or_eq_true, beq_iff_eq, decide_eq_true_eq] at hlast
      rcases hlast with hnone | hlate
      · exact .inr (hgone fun id _ => pending_of_inFlight hnone id)
      · exact .inl (Nat.le_trans hlate hnow)
  · obtain ⟨next, hnext, hd'⟩ := (course hl e).hasDrained hstage hd hdrop
    exact .inr ⟨next, hnext, hd', hclear.imp (fun hlate => Nat.le_trans hlate hnow) hgone⟩

theorem Gate.run (h : Gate deadline bound s n) (hl : Lined s) (hkeep : .drop n ∉ events) :
    Gate deadline bound (s.run events) n := by
  induction events generalizing s with
  | nil => exact h
  | cons e events ih =>
    obtain ⟨hdrop, hkeep'⟩ := List.ne_and_not_mem_of_not_mem_cons hkeep
    exact ih (h.apply hl (Ne.symm hdrop)) (hl.apply e) hkeep'

theorem accept_draining (hn : s.stageOf n = some (.draining previous deadline wakeAt))
    (count : Nat) : s.apply (.accept (.call n) count) = s := by
  obtain ⟨mailbox, hc⟩ := exists_at hn
  simp [Session.apply, accept, sendingOf, hc]

theorem step_draining (hn : s.stageOf n = some (.draining previous deadline wakeAt)) :
    (s.apply (.step (.call n))).pending = s.pending ∧
      ∀ m, m ≠ n → (s.apply (.step (.call n))).calls.get? m = s.calls.get? m := by
  have hmove : ∀ (s : Session) (stage : Stage), (s.moveCall n stage).pending = s.pending ∧
      ∀ m, m ≠ n → (s.moveCall n stage).calls.get? m = s.calls.get? m := by
    intro s stage
    unfold moveCall
    split
    · exact ⟨rfl, fun m hm => by rw [Table.get?_set, if_neg hm]⟩
    · exact ⟨rfl, fun _ _ => rfl⟩
  rw [apply_draining hn]
  by_cases hwake : wakeAt ≤ s.now
  · rw [if_pos hwake, drainCheck]
    split
    · exact hmove s _
    · split
      · exact hmove (s.note ..) _
      · exact hmove s _
  · rw [if_neg hwake]
    exact ⟨rfl, fun _ _ => rfl⟩

/-! ## Requests that are made too late

From the moment when stopping begins nobody is let in, so whoever registers a request had been let
in before. -/

/-- Whoever may register a request could have done so at the beginning, or is call `n`. -/
def Barred (begun s : Session) (n : Nat) : Prop :=
  ∀ m stage, s.stageOf m = some stage → stage.mayRegister = true →
    m = n ∨ ∃ stage', begun.stageOf m = some stage' ∧ stage'.mayRegister = true

variable {begun : Session} {c : Phase}

theorem Barred.apply (h : Barred begun s n) (hg : Governed c s) (hc : c = .stopping ∨ c = .stopped)
    (hproper : s.Proper e) : Barred begun (s.apply e) n := by
  intro m next hm hnext
  have hstate : s.view.state = .stopping ∨ s.view.state = .stopped := by
    rcases hc with rfl | rfl
    · exact .inl hg.ordered.state
    · exact .inr hg.ordered.state
  obtain ⟨stage, hstage, hreg⟩ := (course hg.lined e).mayRegister hstate hproper hm hnext
  exact h m stage hstage hreg

theorem Phase.Turns.closing {d : Phase} (h : c.Turns d) (hc : c = .stopping ∨ c = .stopped) :
    d = .stopping ∨ d = .stopped := by
  cases h with
  | stays => exact hc
  | ends => exact .inr rfl
  | _ => rcases hc with hc | hc <;> cases hc

theorem Barred.run {m id : Nat} (h : Barred begun s n) (hg : Governed c s)
    (hc : c = .stopping ∨ c = .stopped) (hproper : Throughout Proper s events)
    (hr : .registered m id ∈ s.journal events) :
    m = n ∨ ∃ stage, begun.stageOf m = some stage ∧ stage.mayRegister = true := by
  induction events generalizing s c with
  | nil => cases hr
  | cons e events ih =>
    rcases List.mem_append.mp hr with hr | hr
    · obtain ⟨stage, hstage, hreg⟩ := (course hg.lined e).registered hr
      exact h m stage hstage hreg
    · obtain ⟨d, hturn, hg'⟩ := hg.apply hproper.1
      exact ih (h.apply hg hc hproper.1) hg' (hturn.closing hc) hproper.2 hr

/-- While a session runs, nobody is about to register a request but users that have been let in. -/
theorem isLetIn_of_running {m : Nat} (hg : Governed .running s) (hm : s.stageOf m = some stage)
    (hreg : stage.mayRegister = true) : stage.isLetIn = true := by
  have hfits : Phase.Fits .running m stage.role := hg.ordered.fits m stage hm
  have hclosing : ∀ {previous : SessionState},
      ¬ Phase.Fits .running m (if previous = .running then .closes else .stray) := by
    intro previous hfits
    split at hfits
    · cases hfits.closes.2
    · exact hfits.not_stray
  cases stage with
  | fresh ask =>
    cases ask with
    | opening => cases hfits.begins.2
    | _ => cases hreg
  | admitted ask =>
    cases ask with
    | request method params => rfl
    | _ => cases hreg
  | working work deadline purpose =>
    cases work with
    | send sending => cases hreg
    | exchange exchange =>
      cases exchange with
      | fresh method params =>
        cases purpose with
        | introduce | confirm => cases hfits.opens.2
        | shutdown | leave => cases hfits.closes.2
        | answer | message =>
          cases deadline with
          | none => rfl
          | some d => exact hfits.not_stray.elim
      | _ => cases hreg
  | draining previous deadline wakeAt => exact (hclosing hfits).elim
  | drained previous => exact (hclosing hfits).elim
  | _ => cases hreg

/-! ## The drain as a whole -/

def hasDrained (s : Session) (n : Nat) : Bool := (s.stageOf n).any Stage.hasDrained

/-- What it means that session `s` is drained before the server is asked to shut down, if the next
step of call `n` begins to stop it and `during` is what happens then. -/
structure DrainsFirst (window : Duration) (s : Session) (n : Nat) (during : List Event) : Prop where
  /-- The drain is over once a survey finds that no request is outstanding or that the window has
  elapsed, and not before; there is no survey after that one. -/
  over_iff : (s.run (.step (.call n) :: during)).hasDrained n = true ↔
    ∃ survey ∈ s.surveys n (.step (.call n) :: during), survey.isLast (s.now + window.nanos) = true
  first : ∀ survey ∈ (s.surveys n (.step (.call n) :: during)).dropLast,
    survey.isLast (s.now + window.nanos) = false
  /-- If the clock never runs past the moment of a survey, they are taken when the call begins and
  then at every multiple of the interval, -/
  times : s.staysOnTime n (.step (.call n) :: during) = true →
    ∀ i survey, (s.surveys n (.step (.call n) :: during))[i]? = some survey →
      survey.time = s.now + i * (Duration.ofMillis 10).nanos
  /-- and the clock does not get past the next multiple before the drain is over. -/
  prompt : s.staysOnTime n (.step (.call n) :: during) = true →
    (s.run (.step (.call n) :: during)).hasDrained n = false →
      (s.run (.step (.call n) :: during)).now ≤
        s.now + (s.surveys n (.step (.call n) :: during)).length * (Duration.ofMillis 10).nanos
  idle : ∀ done, done <+: during → (s.run (.step (.call n) :: done)).hasDrained n = false →
    ((s.run (.step (.call n) :: done)).apply (.step (.call n))).pending =
        (s.run (.step (.call n) :: done)).pending ∧
      ∀ m, m ≠ n → ((s.run (.step (.call n) :: done)).apply (.step (.call n))).calls.get? m =
        (s.run (.step (.call n) :: done)).calls.get? m
  /-- On any clock, when octets of the call go on the wire the window has elapsed, or no request is
  outstanding any more that had its number before the drain was over. -/
  gate : ∀ done count, done <+: during →
    ((s.run (.step (.call n) :: done)).apply (.accept (.call n) count)).wire ≠
      (s.run (.step (.call n) :: done)).wire →
    s.now + window.nanos ≤ (s.run (.step (.call n) :: done)).now ∨
      ∀ earlier, earlier <+: done → (s.run (.step (.call n) :: earlier)).hasDrained n = false →
        ∀ id < (s.run (.step (.call n) :: earlier)).ids.next,
          (s.run (.step (.call n) :: done)).pending.get? id = none
  /-- No request is registered from then on but that of the call itself, and those of users who had
  been let in before. -/
  barred : ∀ m id, .registered m id ∈ s.journal (.step (.call n) :: during) →
    m = n ∨ (s.stageOf m).any Stage.isLetIn = true

section Whole

variable {taken : List Survey}

theorem Drain.hasDrained_iff (h : Drain deadline s n taken) :
    s.hasDrained n = true ↔ ∃ survey ∈ taken, survey.isLast deadline = true := by
  cases h with
  | goes hstage hgoing =>
    rw [hasDrained, hstage]
    refine ⟨nofun, ?_⟩
    rintro ⟨survey, hmem, hlast⟩
    cases (hgoing survey hmem).symm.trans hlast
  | @ended stage earlier last hstage hd hsurveys hgoing hlast =>
    rw [hasDrained, hstage]
    exact ⟨fun _ => ⟨last, by simp [hsurveys], hlast⟩, fun _ => hd⟩

theorem Drain.first (h : Drain deadline s n taken) :
    ∀ survey ∈ taken.dropLast, survey.isLast deadline = false := by
  cases h with
  | goes hstage hgoing => exact fun survey hmem => hgoing survey (List.dropLast_subset _ hmem)
  | ended hstage hd hsurveys hgoing hlast =>
    rw [hsurveys, List.dropLast_concat]
    exact hgoing

theorem Drain.draining (h : Drain deadline s n taken) (hnot : s.hasDrained n = false) :
    ∃ wakeAt, s.stageOf n = some (.draining .running deadline wakeAt) := by
  cases h with
  | goes hstage hgoing => exact ⟨_, hstage⟩
  | ended hstage hd hsurveys hgoing hlast =>
    rw [hasDrained, hstage, Option.any_some, hd] at hnot
    cases hnot

theorem drain_of_stop (hstop : s.stageOf n = some (.fresh .stop)) (hstate : s.state = .running) :
    (s.apply (.step (.call n))).stageOf n =
        some (.draining .running (s.now + s.settings.drainWindow.nanos) s.now) ∧
      (s.apply (.step (.call n))).state = .stopping ∧
      ∀ m, m ≠ n → (s.apply (.step (.call n))).stageOf m = s.stageOf m := by
  obtain ⟨mailbox, hc⟩ := exists_at hstop
  obtain ⟨log, happly⟩ := apply_stop hc hstate
  rw [happly]
  refine ⟨?_, rfl, fun m hm => ?_⟩
  · rw [stageOf, Table.get?_set, if_pos rfl]
    rfl
  · rw [stageOf, Table.get?_set, if_neg hm]
    rfl

/-- Once the call is about to write, what its last survey has found still holds. -/
theorem Drain.gate {later : List Event} (h : Drain deadline s n taken) (hl : Lined s)
    (hsound : Sound s.registry) (hnot : s.hasDrained n = false) (hkeep : .drop n ∉ later)
    (hover : (s.run later).hasDrained n = true) :
    deadline ≤ (s.run later).now ∨ ∀ id < s.ids.next, (s.run later).pending.get? id = none := by
  have hgate : Gate deadline s.ids.next s n :=
    ⟨hsound, Nat.le_refl _, .inl (h.draining hnot)⟩
  rcases (hgate.run hl hkeep).stage with ⟨wakeAt, hstage⟩ | ⟨stage, hstage, hd, hclear⟩
  · rw [hasDrained, hstage] at hover
    cases hover
  · exact hclear

/-- Nothing is written for a call that is draining. -/
theorem Drain.hasDrained_of_wire {count : Nat} (h : Drain deadline s n taken)
    (hwire : (s.apply (.accept (.call n) count)).wire ≠ s.wire) : s.hasDrained n = true := by
  by_contra hnot
  obtain ⟨wakeAt, hn⟩ := h.draining (Bool.eq_false_iff.mpr hnot)
  exact hwire (congrArg Session.wire (accept_draining hn count))

/-- From a stop on, no request is registered but that of the call itself, and those of users who had
been let in before. -/
theorem Governed.letIn_of_registered {during : List Event} {m id : Nat} (hg : Governed .running s)
    (hproper : Throughout Proper s (.step (.call n) :: during))
    (hstop : s.stageOf n = some (.fresh .stop))
    (hr : .registered m id ∈ s.journal (.step (.call n) :: during)) :
    m = n ∨ (s.stageOf m).any Stage.isLetIn = true := by
  obtain ⟨-, hstate, hothers⟩ := drain_of_stop hstop hg.ordered.state
  obtain ⟨d, hturn, hg'⟩ := hg.apply hproper.1
  have hnothing : s.happenings (.step (.call n)) = [] := by
    obtain ⟨mailbox, hc⟩ := exists_at hstop
    simp [happenings, hc]
  rw [journal, hnothing, List.nil_append] at hr
  have hclosing : d = .stopping ∨ d = .stopped := by
    have hshown : d.state = .stopping := hg'.ordered.state.symm.trans hstate
    cases hturn with
    | stays => cases hshown
    | halts => exact .inl rfl
  have hbarred : Barred s (s.apply (.step (.call n))) n := by
    intro m stage hm hreg
    by_cases hmn : m = n
    · exact .inl hmn
    · exact .inr ⟨stage, hothers m hmn ▸ hm, hreg⟩
  refine (hbarred.run hg' hclosing hproper.2 hr).imp_right ?_
  rintro ⟨stage, hm, hreg⟩
  rw [hm]
  exact isLetIn_of_running hg hm hreg

theorem Governed.drainsFirst {early : List Happening} {during : List Event}
    (hg : Governed .running s) (hrec : Recorded early s.registry)
    (hproper : Throughout Proper s (.step (.call n) :: during))
    (hstop : s.stageOf n = some (.fresh .stop)) (hkeep : .drop n ∉ during) :
    DrainsFirst s.settings.drainWindow s n during := by
  obtain ⟨hstage, -, -⟩ := drain_of_stop hstop hg.ordered.state
  have hl : Lined (s.apply (.step (.call n))) := hg.lined.apply _
  have hsurveys : s.surveys n (.step (.call n) :: during) =
      (s.apply (.step (.call n))).surveys n during := by
    simp [surveys, surveyBy, hstop]
  have htime : s.staysOnTime n (.step (.call n) :: during) = true →
      (s.apply (.step (.call n))).staysOnTime n during = true :=
    fun h => (Bool.and_eq_true_iff.mp h).2
  have hkeep' : ∀ {done : List Event}, done <+: during → .drop n ∉ done :=
    fun hdone hmem => hkeep (hdone.subset hmem)
  have hbegin : Drain (s.now + s.settings.drainWindow.nanos) (s.apply (.step (.call n))) n [] :=
    .goes hstage nofun
  have hdrain : ∀ {done : List Event}, done <+: during →
      Drain (s.now + s.settings.drainWindow.nanos) (s.run (.step (.call n) :: done)) n
        ((s.apply (.step (.call n))).surveys n done) :=
    fun hdone => hbegin.run hl (hkeep' hdone)
  have hregular : Regular s.now (s.apply (.step (.call n))) n [] := by
    refine ⟨nofun, fun _ _ _ hn => ?_⟩
    obtain ⟨-, -, rfl⟩ := Stage.draining.inj (Option.some.inj (hstage.symm.trans hn))
    simp
  have hwhole := hdrain (List.prefix_refl during)
  refine
    { over_iff := hsurveys ▸ hwhole.hasDrained_iff
      first := hsurveys ▸ hwhole.first
      times := fun h => ?_
      prompt := fun h hnot => ?_
      idle := fun done hdone hnot => ?_
      gate := fun done count hdone hwire => ?_
      barred := fun m id hr => hg.letIn_of_registered hproper hstop hr }
  · rw [hsurveys]
    exact (hregular.run hbegin hl hkeep (htime h)).1.times
  · rw [hsurveys]
    obtain ⟨hlater, hontime⟩ := hregular.run hbegin hl hkeep (htime h)
    obtain ⟨wakeAt, hn⟩ := hwhole.draining hnot
    exact hlater.next _ _ _ hn ▸ now_le_of_isOnTime hontime hn
  · obtain ⟨wakeAt, hn⟩ := (hdrain hdone).draining hnot
    exact step_draining hn
  · have hover := (hdrain hdone).hasDrained_of_wire hwire
    by_cases hlate : s.now + s.settings.drainWindow.nanos ≤ (s.run (.step (.call n) :: done)).now
    · exact .inl hlate
    · refine .inr fun earlier hearlier hnot => ?_
      have hprefix := hearlier.trans hdone
      obtain ⟨later, rfl⟩ := hearlier
      have hrun : s.run (.step (.call n) :: (earlier ++ later)) =
          (s.run (.step (.call n) :: earlier)).run later := List.foldl_append
      rw [hrun] at hover hlate ⊢
      have hlater : .drop n ∉ later := fun hmem =>
        hkeep' hdone (List.mem_append_right earlier hmem)
      exact ((hdrain hprefix).gate (hg.lined.run _) (hrec.run _).sound hnot hlater
        hover).resolve_left hlate

end Whole

/-- A session is drained before the server is asked to shut down: whatever the window, whatever
requests are outstanding when the session is stopped, and whatever is answered, given up, written or
asked for while it is. -/
theorem shutdown_waits_for_drain (settings : SessionSettings) (filter : DocumentFilter)
    (label : String) (processId now : Nat) (before during : List Event) (n : Nat)
    (hproper : Throughout Proper (start settings filter label processId now)
      (before ++ .step (.call n) :: during))
    (hstate : ((start settings filter label processId now).run before).state = .running)
    (hstop : ((start settings filter label processId now).run before).stageOf n =
      some (.fresh .stop))
    (hkeep : .drop n ∉ during) :
    DrainsFirst settings.drainWindow ((start settings filter label processId now).run before) n
      during := by
  obtain ⟨hpast, hrest⟩ := throughout_append.mp hproper
  obtain ⟨c, hg⟩ := (governed_start settings filter label processId now).run hpast
  obtain rfl := hg.ordered.running_of_state hstate
  have hdrains := hg.drainsFirst (run_recorded settings filter label processId now before) hrest
    hstop hkeep
  rwa [settings_run] at hdrains

/-- The request of a visit is answered between the second survey and the third, which is the last
one; then the server is asked to shut down. -/
def lingering : List Event :=
  [.step (.call 2), .pass 10000000, .step (.call 2), .pass 5000000] ++ hears 1 2 ++
    [.pass 5000000] ++ List.replicate 5 (.step (.call 2))

theorem lingering_proper : Throughout Proper (start {} {} "custom" 0 0)
    (visit ++ .step (.call 2) :: lingering) := by
  simp only [visit, lingering, writes, hears, Throughout, Proper, Event.Proper, List.replicate,
    List.cons_append, List.nil_append, true_and, and_true]
  refine ⟨⟨by decide, by simp, by simp⟩, by decide, by simp, fun _ => ?_⟩
  decide +kernel

theorem shutdown_waits_for_drain_lingering :
    ((start {} {} "custom" 0 0).run visit).state = .running ∧
      ((start {} {} "custom" 0 0).run visit).staysOnTime 2 (.step (.call 2) :: lingering) = true ∧
      ((start {} {} "custom" 0 0).run visit).surveys 2 (.step (.call 2) :: lingering) =
        [⟨0, 1⟩, ⟨10000000, 1⟩, ⟨20000000, 0⟩] ∧
      (((start {} {} "custom" 0 0).run visit).run
        (.step (.call 2) :: lingering)).hasDrained 2 = true ∧
      DrainsFirst (SessionSettings.drainWindow {}) ((start {} {} "custom" 0 0).run visit) 2
        lingering := by
  obtain ⟨hstate, hstop, htime, hsurveys, hover⟩ :
      ((start {} {} "custom" 0 0).run visit).state = .running ∧
      (((start {} {} "custom" 0 0).run visit).stageOf 2).any Stage.isStop = true ∧
      ((start {} {} "custom" 0 0).run visit).staysOnTime 2 (.step (.call 2) :: lingering) = true ∧
      ((start {} {} "custom" 0 0).run visit).surveys 2 (.step (.call 2) :: lingering) =
        [⟨0, 1⟩, ⟨10000000, 1⟩, ⟨20000000, 0⟩] ∧
      (((start {} {} "custom" 0 0).run visit).run
        (.step (.call 2) :: lingering)).hasDrained 2 = true := by
    decide +kernel
  refine ⟨hstate, htime, hsurveys, hover, ?_⟩
  refine shutdown_waits_for_drain {} {} "custom" 0 0 visit lingering 2 lingering_proper hstate
    (stageOf_of_any Stage.eq_of_isStop hstop) ?_
  simp [lingering, hears]

end Session

end LanguageClient
