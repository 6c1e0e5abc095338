import LanguageClient.Server.Process

/-!
# The handle of a process over its whole life

A process runs on by itself while the client holds a handle to it, and it may end at any moment:
between two calls, between the look at it and the request to end, during the grace period, or before
it is killed. The handle remembers two things, how the process has ended (`exit`) and that ending it
has succeeded (`terminated`), and neither of them is looked up again.

`Ending` lists what ending a process can come to. The handle is `Sound` if what it remembers is true
of the process and the signals were sent in order; every use of the handle keeps it so, provided
that a process that is killed is gone in time (`Mortal`). **`kill_ends_process_once`** says what
follows for all uses together.
-/

namespace LanguageClient

namespace Child

variable {c : Child} {status : WaitStatus}

theorem status_eq_some_iff :
    c.status = some status ↔ ∃ t, c.endsAt = some (t, status) ∧ t ≤ c.now := by
  unfold Child.status
  cases c.endsAt with
  | none => simp
  | some e => by_cases ht : e.1 ≤ c.now <;> simp [ht, Prod.ext_iff, and_assoc]

theorem status_pass (h : c.status = some status) (nanos : Nat) :
    (c.pass nanos).status = some status := by
  obtain ⟨t, hends, hle⟩ := status_eq_some_iff.mp h
  exact status_eq_some_iff.mpr ⟨t, hends, Nat.le_add_right_of_le hle⟩

theorem earlier_le (a : Option (Nat × WaitStatus)) (b : Nat × WaitStatus) :
    ∃ e, earlier a (some b) = some e ∧ e.1 ≤ b.1 := by
  cases a with
  | none => exact ⟨b, rfl, Nat.le_refl _⟩
  | some a =>
    rw [earlier]
    split
    · exact ⟨b, rfl, Nat.le_refl _⟩
    · exact ⟨a, rfl, by omega⟩

theorem status_of_killed {delay bound : Nat} (hkill : c.onKill = some delay)
    (hfirst : c.killedAt = none) (hle : delay ≤ bound) :
    ∃ status, ((c.receive .kill).pass bound).status = some status := by
  have hforced : ((c.receive .kill).pass bound).forcedEnd = some (c.now + delay, .signalled 9) := by
    simp [forcedEnd, pass, atTime, receive, hfirst, hkill]
  obtain ⟨e, he, hearly⟩ := earlier_le ((c.receive .kill).pass bound).requestedEnd
    (c.now + delay, .signalled 9)
  obtain ⟨last, hlast, hfinal⟩ := earlier_le ((c.receive .kill).pass bound).ownEnd e
  refine ⟨last.2, status_eq_some_iff.mpr ⟨last.1, ?_, ?_⟩⟩
  · rw [endsAt, hforced, he, hlast]
  · change last.1 ≤ c.now + bound
    omega

end Child

namespace Process

variable {p q : Process} {status : WaitStatus} {outcome : Termination}

/-! ## What ending a process comes to -/

def asked (p : Process) : Child := (p.child.pass p.askDelay).receive .terminate

def afterGrace (p : Process) : Child := p.asked.pass p.grace.nanos

def killed (p : Process) : Child := (p.afterGrace.pass p.killDelay).receive .kill

/-- A process that is killed is gone within the time that it is given. -/
def Mortal (p : Process) : Prop := ∃ delay, p.child.onKill = some delay ∧ delay ≤ p.grace.nanos

inductive Ending (p : Process) : Termination → Process → Prop where
  | alreadyExited {status : WaitStatus} {log : List Log.Event}
      (hgone : p.child.status = some status) :
      Ending p .alreadyExited { p with terminated := true, log }
  | exited {status : WaitStatus} {now : Nat} {log : List Log.Event}
      (halive : p.child.status = none) (hgone : p.afterGrace.status = some status)
      (hstatus : (p.asked.atTime now).status = some status) :
      Ending p .exited
        { p with
          child := p.asked.atTime now
          signals := p.signals ++ [(p.asked.now, .terminate)]
          terminated := true
          log }
  | killed {status : WaitStatus} {now : Nat} {log : List Log.Event}
      (halive : p.child.status = none) (hstays : p.afterGrace.status = none)
      (hstatus : (p.killed.atTime now).status = some status) :
      Ending p .killed
        { p with
          child := p.killed.atTime now
          signals := p.signals ++ [(p.asked.now, .terminate)] ++ [(p.killed.now, .kill)]
          terminated := true
          log }

theorem wait_of_ended (bound : Duration) (h : (p.child.pass bound.nanos).status = some status) :
    ∃ now, p.wait bound = (some status, { p with child := p.child.atTime now }) ∧
      (p.child.atTime now).status = some status := by
  obtain ⟨t, hends, hle⟩ := Child.status_eq_some_iff.mp h
  have hends : p.child.endsAt = some (t, status) := hends
  have hle : t ≤ p.child.now + bound.nanos := hle
  refine ⟨max p.child.now t, ?_, Child.status_eq_some_iff.mpr ⟨t, hends, Nat.le_max_right ..⟩⟩
  simp only [wait, Child.wait, hends, if_pos hle]

theorem wait_of_alive (bound : Duration) (h : (p.child.pass bound.nanos).status = none) :
    p.wait bound = (none, p.pass bound.nanos) := by
  cases hends : p.child.endsAt with
  | none => simp only [wait, Child.wait, hends, pass]
  | some e =>
    have hlate : ¬ e.1 ≤ p.child.now + bound.nanos := by
      intro hle
      have hended : (p.child.pass bound.nanos).status = some e.2 :=
        Child.status_eq_some_iff.mpr ⟨e.1, hends, hle⟩
      rw [h] at hended
      cases hended
    simp only [wait, Child.wait, hends, if_neg hlate, pass]

theorem forceKill_eq
    (h : (((p.child.pass p.killDelay).receive .kill).pass p.grace.nanos).status = some status) :
    ∃ now log, p.forceKill = (.killed,
        { p with
          child := ((p.child.pass p.killDelay).receive .kill).atTime now
          signals := p.signals ++ [(p.child.now + p.killDelay, .kill)]
          log }) ∧
      (((p.child.pass p.killDelay).receive .kill).atTime now).status = some status := by
  obtain ⟨now, hwait, hnow⟩ :=
    wait_of_ended (p := (p.pass p.killDelay).send .kill) p.grace h
  refine ⟨now, p.log ++ [event .debug "language server killed" [("status", .shown status.dump)]],
    ?_, hnow⟩
  unfold forceKill
  rw [hwait]
  rfl

theorem kill_ending_of_new (hmortal : p.Mortal) (hfirst : p.child.killedAt = none)
    (hnot : p.terminated = false) : Ending p p.kill.1 p.kill.2 := by
  unfold kill terminate
  rw [hnot]
  cases hstatus : p.child.status with
  | some status => exact .alreadyExited hstatus
  | none =>
    cases hgrace : p.afterGrace.status with
    | some status =>
      obtain ⟨now, hwait, hnow⟩ :=
        wait_of_ended (p := (p.pass p.askDelay).send .terminate) p.grace hgrace
      simp only [hwait]
      exact .exited hstatus hgrace hnow
    | none =>
      have hwait :=
        wait_of_alive (p := (p.pass p.askDelay).send .terminate) p.grace hgrace
      obtain ⟨delay, hkill, hle⟩ := hmortal
      obtain ⟨status, hgone⟩ :=
        Child.status_of_killed (c := p.afterGrace.pass p.killDelay) hkill hfirst hle
      obtain ⟨now, log, hforce, hnow⟩ := forceKill_eq
        (p := (((p.pass p.askDelay).send .terminate).pass p.grace.nanos).note .warn
          "language server did not exit within grace period, killing"
          [("grace_ms", .int p.grace.millis)]) hgone
      simp only [hwait]
      rw [show (((p.pass p.askDelay).send .terminate).pass p.grace.nanos).grace = p.grace from rfl,
        hforce]
      exact .killed hstatus hgrace hnow

/-! ## What the handle remembers

A handle may be used again after its process has ended, so what it says then rests on its memory. -/

structure New (p : Process) : Prop where
  exit : p.exit = none
  terminated : p.terminated = false
  signals : p.signals = []
  unkilled : p.child.killedAt = none

/-- Signals as they are sent: a request to end, and after the grace period a kill. -/
inductive InOrder (grace : Nat) : List (Nat × Signal) → Prop where
  | none : InOrder grace []
  | asked {t : Nat} : InOrder grace [(t, .terminate)]
  | killed {t k : Nat} (hgrace : t + grace ≤ k) : InOrder grace [(t, .terminate), (k, .kill)]

/-- What the handle remembers is true of the process, and the signals were sent in order. -/
structure Sound (grace : Duration) (p : Process) : Prop where
  given : p.grace = grace
  mortal : p.Mortal
  exit : ∀ e ∈ p.exit, p.child.status.map WaitStatus.exit = some e
  untouched : p.terminated = false → p.signals = [] ∧ p.child.killedAt = none
  ended : p.terminated = true → ∃ status, p.child.status = some status
  order : InOrder grace.nanos p.signals

variable {grace : Duration}

theorem New.sound (h : p.New) (hmortal : p.Mortal) : p.Sound p.grace where
  given := rfl
  mortal := hmortal
  exit e he := by
    rw [h.exit] at he
    cases he
  untouched _ := ⟨h.signals, h.unkilled⟩
  ended hended := by
    rw [h.terminated] at hended
    cases hended
  order := h.signals ▸ .none

theorem Sound.kill_ending (h : p.Sound grace) : Ending p p.kill.1 p.kill.2 := by
  cases hended : p.terminated with
  | false => exact kill_ending_of_new h.mortal (h.untouched hended).2 hended
  | true =>
    obtain ⟨status, hstatus⟩ := h.ended hended
    have hsame : p.kill = (.alreadyExited, { p with terminated := true, log := p.log }) := by
      rw [kill, if_pos hended, ← hended]
    rw [hsame]
    exact .alreadyExited hstatus

theorem Sound.alive (h : p.Sound grace) (halive : p.child.status = none) :
    p.exit = none ∧ p.signals = [] := by
  constructor
  · cases hexit : p.exit with
    | none => rfl
    | some e =>
      have hseen := h.exit e hexit
      rw [halive] at hseen
      cases hseen
  · cases hended : p.terminated with
    | false => exact (h.untouched hended).1
    | true =>
      obtain ⟨status, hstatus⟩ := h.ended hended
      rw [halive] at hstatus
      cases hstatus

theorem Ending.final (he : Ending p outcome q) :
    q.terminated = true ∧ ∃ status, q.child.status = some status := by
  cases he with
  | alreadyExited hgone => exact ⟨rfl, _, hgone⟩
  | exited _ _ hstatus | killed _ _ hstatus => exact ⟨rfl, _, hstatus⟩

theorem Ending.sound (he : Ending p outcome q) (h : p.Sound grace) : q.Sound grace := by
  obtain ⟨hended, hstatus⟩ := he.final
  have hnever : q.terminated = false → q.signals = [] ∧ q.child.killedAt = none := by
    rw [hended]
    intro hnot
    cases hnot
  have hgiven := h.given
  cases he with
  | alreadyExited hgone => exact { h with untouched := hnever, ended := fun _ => hstatus }
  | exited halive =>
    obtain ⟨hexit, hsignals⟩ := h.alive halive
    refine ⟨hgiven, h.mortal, by simp [hexit], hnever, fun _ => hstatus, ?_⟩
    rw [hsignals]
    exact .asked
  | killed halive =>
    obtain ⟨hexit, hsignals⟩ := h.alive halive
    refine ⟨hgiven, h.mortal, by simp [hexit], hnever, fun _ => hstatus, ?_⟩
    rw [hsignals, ← hgiven]
    exact .killed (Nat.le_add_right ..)

/-- What is reported: whether the process has ended before, and else whether it ended within the
grace period. -/
theorem Ending.report (he : Ending p outcome q) :
    outcome.isTerminated = true ∧
    (outcome = .alreadyExited ↔ p.child.status.isSome = true) ∧
    (outcome = .exited ↔ p.child.status = none ∧ p.afterGrace.status.isSome = true) ∧
    (outcome = .killed ↔ p.child.status = none ∧ p.afterGrace.status = none) := by
  cases he with
  | alreadyExited hgone => simp [hgone, Termination.isTerminated]
  | exited halive hgone => simp [halive, hgone, Termination.isTerminated]
  | killed halive hstays => simp [halive, hstays, Termination.isTerminated]

theorem Sound.tryExit_eq (h : p.Sound grace) :
    p.tryExit.1 = p.child.status.map WaitStatus.exit := by
  unfold tryExit
  cases hexit : p.exit with
  | none => rfl
  | some e => exact (h.exit e hexit).symm

/-! ## All uses of a handle -/

inductive Use where
  | pass (nanos : Nat)
  | tryExit
  | kill
  deriving DecidableEq, Repr

def use (p : Process) : Use → Process
  | .pass nanos => p.pass nanos
  | .tryExit => p.tryExit.2
  | .kill => p.kill.2

def run (p : Process) (uses : List Use) : Process := uses.foldl use p

def shows (p : Process) : Use → Bool
  | .pass _ => false
  | .tryExit => p.tryExit.1.isSome
  | .kill => p.kill.1.isTerminated

theorem run_append (p : Process) (before after : List Use) :
    p.run (before ++ after) = (p.run before).run after :=
  List.foldl_append

theorem Sound.use (h : p.Sound grace) (u : Use) : (p.use u).Sound grace := by
  cases u with
  | pass nanos =>
    -- A process whose end is remembered has ended, and time does not change that.
    refine { h with exit := fun e he => ?_, ended := fun hended => ?_ }
    · obtain ⟨status, hstatus, rfl⟩ := Option.map_eq_some_iff.mp (h.exit e he)
      exact congrArg (Option.map WaitStatus.exit) (Child.status_pass hstatus nanos)
    · obtain ⟨status, hstatus⟩ := h.ended hended
      exact ⟨status, Child.status_pass hstatus nanos⟩
  | tryExit =>
    rw [Process.use, Process.tryExit]
    split
    · exact h
    · exact { h with exit := fun e he => he }
  | kill => exact h.kill_ending.sound h

theorem Sound.run (h : p.Sound grace) (uses : List Use) : (p.run uses).Sound grace := by
  induction uses generalizing p with
  | nil => exact h
  | cons u uses ih => exact ih (h.use u)

theorem Sound.use_of_ended (h : p.Sound grace) (hstatus : p.child.status = some status) (u : Use) :
    (p.use u).child.status = some status ∧ (p.use u).signals = p.signals := by
  cases u with
  | pass nanos => exact ⟨Child.status_pass hstatus nanos, rfl⟩
  | tryExit =>
    rw [Process.use, Process.tryExit]
    split <;> exact ⟨hstatus, rfl⟩
  | kill =>
    have hending := h.kill_ending
    rw [Process.use]
    generalize p.kill.1 = outcome, p.kill.2 = q at hending
    cases hending with
    | alreadyExited => exact ⟨hstatus, rfl⟩
    | exited halive | killed halive =>
      rw [halive] at hstatus
      cases hstatus

theorem Sound.run_of_ended (h : p.Sound grace) (hstatus : p.child.status = some status)
    (uses : List Use) :
    (p.run uses).child.status = some status ∧ (p.run uses).signals = p.signals := by
  induction uses generalizing p with
  | nil => exact ⟨hstatus, rfl⟩
  | cons u uses ih =>
    obtain ⟨hnext, hsame⟩ := h.use_of_ended hstatus u
    obtain ⟨hend, hsignals⟩ := ih (h.use u) hnext
    exact ⟨hend, hsignals.trans hsame⟩

theorem Sound.ended_of_shows (h : p.Sound grace) {u : Use} (hshows : p.shows u = true) :
    ∃ status, (p.use u).child.status = some status := by
  cases u with
  | pass nanos => cases hshows
  | tryExit =>
    rw [shows, h.tryExit_eq, Option.isSome_map] at hshows
    obtain ⟨status, hstatus⟩ := Option.isSome_iff_exists.mp hshows
    exact ⟨status, (h.use_of_ended hstatus .tryExit).1⟩
  | kill => exact h.kill_ending.final.2

theorem InOrder.count {grace : Nat} {signals : List (Nat × Signal)} (h : InOrder grace signals) :
    signals.countP (·.2 == .terminate) ≤ 1 ∧ signals.countP (·.2 == .kill) ≤ 1 := by
  cases h <;> simp

theorem InOrder.kill_waits {grace k : Nat} {early late : List (Nat × Signal)}
    (h : InOrder grace (early ++ (k, .kill) :: late)) :
    ∃ t, (t, .terminate) ∈ early ∧ t + grace ≤ k := by
  generalize heq : early ++ (k, .kill) :: late = signals at h
  cases h with
  | none => simp at heq
  | asked => simp [List.append_eq_cons_iff] at heq
  | @killed t k' hgrace =>
    rcases early with _ | ⟨s, _ | ⟨s', early⟩⟩
    · simp at heq
    · obtain ⟨rfl, rfl, -⟩ : s = (t, .terminate) ∧ k = k' ∧ late = [] := by simpa using heq
      exact ⟨t, List.mem_singleton.mpr rfl, hgrace⟩
    · simp at heq

/-- **A process is ended once.** Whatever is done with a handle, and whenever the process ends:
ending it reports that it had ended before, that it ended within the grace period after the request,
or that it was killed, exactly if that is so, and a second time always that it had ended before. All
in all there is one request and one kill at most, the kill after the request and the whole grace
period; nothing is sent once the process was seen ended; and how it has ended never changes. -/
theorem kill_ends_process_once (p : Process) (hnew : p.New) (hmortal : p.Mortal)
    (uses : List Use) :
    let q := p.run uses
    (q.kill.1 = .alreadyExited ↔ q.child.status.isSome = true) ∧
    (q.kill.1 = .exited ↔ q.child.status = none ∧ q.afterGrace.status.isSome = true) ∧
    (q.kill.1 = .killed ↔ q.child.status = none ∧ q.afterGrace.status = none) ∧
    (.kill ∈ uses → q.kill.1 = .alreadyExited) ∧
    (q.signals.countP (·.2 == .terminate) ≤ 1 ∧ q.signals.countP (·.2 == .kill) ≤ 1) ∧
    (∀ early k late, q.signals = early ++ (k, .kill) :: late →
      ∃ t, (t, .terminate) ∈ early ∧ t + p.grace.nanos ≤ k) ∧
    (∀ before u after, uses = before ++ u :: after → (p.run before).shows u = true →
      q.signals = (p.run (before ++ [u])).signals) ∧
    (∀ before after e, uses = before ++ .tryExit :: after →
      (p.run before).tryExit.1 = some e → q.tryExit.1 = some e) := by
  intro q
  have hp := hnew.sound hmortal
  have hq : q.Sound p.grace := hp.run uses
  obtain ⟨-, halready, hexited, hkilled⟩ := hq.kill_ending.report
  -- Once a use has shown that the process has ended, it stays ended and no signal is sent.
  have hlater : ∀ before u after, uses = before ++ u :: after → (p.run before).shows u = true →
      q.child.status.isSome = true ∧ q.signals = (p.run (before ++ [u])).signals := by
    intro before u after heq hshows
    have hthen := hp.run before
    obtain ⟨status, hstatus⟩ := hthen.ended_of_shows hshows
    obtain ⟨hend, hsignals⟩ := (hthen.use u).run_of_ended hstatus after
    have hrun : q = ((p.run before).use u).run after := by
      show p.run uses = _
      rw [heq, run_append]
      rfl
    rw [hrun, hend, hsignals, run_append]
    exact ⟨rfl, rfl⟩
  refine ⟨halready, hexited, hkilled, fun hkill => ?_, hq.order.count, fun early k late heq => ?_,
    fun before u after heq hshows => (hlater before u after heq hshows).2,
    fun before after e heq hexit => ?_⟩
  · obtain ⟨before, after, heq⟩ := List.append_of_mem hkill
    exact halready.mpr (hlater before .kill after heq (hp.run before).kill_ending.report.1).1
  · exact (heq ▸ hq.order).kill_waits
  · have hthen := hp.run before
    obtain ⟨status, hstatus, rfl⟩ := Option.map_eq_some_iff.mp (hthen.tryExit_eq ▸ hexit)
    have hend := (hthen.run_of_ended hstatus (.tryExit :: after)).1
    rw [← run_append, ← heq] at hend
    rw [hq.tryExit_eq, hend]
    rfl

/-- A process that ignores the request to end, and ends by itself between the end of the grace period
and the kill. It is looked at, ended, ended again and looked at once more. -/
theorem kill_ends_stubborn_process :
    let p : Process :=
      { child := { ownEnd := some (7, .exited 3), onTerminate := none, onKill := some 0 }
        grace := ⟨4, by decide⟩
        askDelay := 1
        killDelay := 2 }
    let uses : List Use := [.tryExit, .pass 1, .kill, .kill, .tryExit]
    (p.run (uses.take 2)).kill.1 = .killed ∧ (p.run uses).signals = [(2, .terminate), (8, .kill)] ∧
      (p.run uses).kill.1 = .alreadyExited ∧ (p.run uses).tryExit.1 = some ⟨some 3⟩ := by
  intro p uses
  have hnew : p.New := ⟨rfl, rfl, rfl, rfl⟩
  have hmortal : p.Mortal := ⟨0, rfl, Nat.zero_le _⟩
  obtain ⟨-, -, -, hagain, -, -, -, hsame⟩ := kill_ends_process_once p hnew hmortal uses
  obtain ⟨-, -, hkilled, -⟩ := kill_ends_process_once p hnew hmortal (uses.take 2)
  exact ⟨hkilled.mpr (by decide), by decide, hagain (by decide), by decide⟩

end Process

end LanguageClient
