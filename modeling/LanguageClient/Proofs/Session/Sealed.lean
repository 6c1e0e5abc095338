import LanguageClient.Proofs.Session.Stop

/-!
# What a returned stop means

A session has stopped for good once its end of the stream is closed, nobody writes and nobody reads
(`Shut`). The state of a session says nothing about the stream, so this needs an invariant of its own:
as long as the writer is there somebody can still close the stream, and whoever takes it away closes
the stream next, even if they lose interest (`Sealed`).

A call that stops a running session returns when the session is shut. A call that finds the session
being stopped by somebody else returns at once, and the session goes on being stopped.
-/

namespace LanguageClient

theorem Stage.eq_of_shuts {stage : Stage} (h : stage.shuts = true) :
    (∃ error, stage = .givingUp .shutting error) ∨ ∃ report, stage = .ending .shutting report := by
  unfold Stage.shuts at h
  split at h
  · exact .inl ⟨_, rfl⟩
  · exact .inr ⟨_, rfl⟩
  · cases h

namespace Session

variable {s s' mid : Session} {n : Nat} {e : Event} {events : List Event}

/-! ## The writer and the client's end of the stream -/

/-- The writer is there in both sessions or in neither, and so it is with the closed end. -/
def SameEnd (s s' : Session) : Prop := s'.writer = s.writer ∧ s'.closed = s.closed

/-- What an event can do to the writer and to the client's end of the stream: nothing; or a call takes
the writer away, and closes the stream next if the writer was there; or the stream is closed. -/
inductive EndChange (s s' : Session) : Prop where
  | kept (hsame : SameEnd s s')
  | taken (n : Nat) (hclosed : s'.closed = s.closed)
      (hnext : s.writer = true → ∃ stage, s'.stageOf n = some stage ∧ stage.shuts = true)
  | shut (hclosed : s'.closed = true)

theorem Change.endChange {hs : List Happening} (h : Change s e hs s') (hdrop : ∀ n, e ≠ .drop n) :
    EndChange s s' := by
  cases h.refit with
  | disarmed n hnext hsame => exact .taken n (congrArg Fixtures.closed hsame) hnext
  | shut hclosed hsame => exact .shut ((congrArg Fixtures.closed hsame).trans (hclosed hdrop))
  | kept hsame | offered documents he hn hsame | refused he hr hother hsame
  | added request hsame =>
    exact .kept ⟨congrArg Fixtures.writer hsame, congrArg Fixtures.closed hsame⟩

/-- A caller who loses interest changes nothing about the stream, unless the call was about to close
it: then it is closed. -/
theorem dropCall_endChange (s : Session) (n : Nat) : EndChange s (s.dropCall n) := by
  rw [dropCall]
  cases s.calls.get? n with
  | none => exact .kept ⟨rfl, rfl⟩
  | some c =>
    dsimp only
    split
    · have hsame := fixtures_dropWork s (.call n) ‹_›
      exact .kept ⟨congrArg Fixtures.writer hsame, congrArg Fixtures.closed hsame⟩
    · exact .kept ⟨rfl, rfl⟩
    · exact .kept ⟨rfl, rfl⟩
    · exact .shut rfl
    · exact .shut rfl
    · exact .kept ⟨rfl, rfl⟩

theorem apply_endChange (s : Session) (e : Event) : EndChange s (s.apply e) := by
  by_cases hdrop : ∃ n, e = .drop n
  · obtain ⟨n, rfl⟩ := hdrop
    exact dropCall_endChange s n
  · exact (apply_change s e).endChange fun n heq => hdrop ⟨n, heq⟩

theorem apply_shutting {stage : Stage} {mailbox : Option Reply} (hc : s.At n stage mailbox)
    (hshuts : stage.shuts = true) : (s.apply (.step (.call n))).closed = true := by
  obtain ⟨mid, hstep, hclosed⟩ : ∃ mid : Session,
      s.closeStep n .shutting = some (mid, some .aborting) ∧ mid.closed = true := ⟨_, rfl, rfl⟩
  have hmoved : ∀ next, (mid.moveCall n next).closed = true := by
    intro next
    exact (congrArg Fixtures.closed (fixtures_moveCall mid n next)).trans hclosed
  rcases Stage.eq_of_shuts hshuts with ⟨error, rfl⟩ | ⟨report, rfl⟩
  · have happly : s.apply (.step (.call n)) = mid.moveCall n (.givingUp .aborting error) := by
      simp [apply, step, callStep, hc, hstep]
    rw [happly, hmoved]
  · have happly : s.apply (.step (.call n)) = mid.moveCall n (.ending .aborting report) := by
      simp [apply, step, callStep, hc, hstep]
    rw [happly, hmoved]

theorem shuts_apply {stage : Stage} (hn : s.stageOf n = some stage) (hshuts : stage.shuts = true)
    (e : Event) : (s.apply e).closed = true ∨ (s.apply e).stageOf n = some stage := by
  by_cases hof : e.isOf (.call n) = false
  · exact .inr (((apply_change s e).stageOf hof).trans hn)
  · -- The call waits for nothing and writes nothing: it can only close the stream or be dropped.
    obtain ⟨mailbox, hc⟩ := exists_at hn
    have hwrites : s.sendingOf (.call n) = none := by
      rcases Stage.eq_of_shuts hshuts with ⟨error, rfl⟩ | ⟨report, rfl⟩ <;> simp [sendingOf, hc]
    rw [Bool.not_eq_false] at hof
    cases e with
    | call m ask =>
      obtain rfl := Task.call.inj (eq_of_beq hof)
      right
      rw [apply, hc]
      exact hn
    | step t =>
      obtain rfl := eq_of_beq hof
      exact .inl (apply_shutting hc hshuts)
    | accept t count =>
      obtain rfl := eq_of_beq hof
      right
      rw [apply, accept, hwrites]
      exact hn
    | refuse t cause =>
      obtain rfl := eq_of_beq hof
      right
      rw [apply, refuse, hwrites]
      exact hn
    | drop m =>
      obtain rfl := Task.call.inj (eq_of_beq hof)
      left
      rcases Stage.eq_of_shuts hshuts with ⟨error, rfl⟩ | ⟨report, rfl⟩ <;>
        simp [apply, dropCall, hc]
    | _ => cases hof

/-! ## Sealed sessions

The writer is not given back, so a session without one is about to close its stream or has closed
it. -/

/-- The writer is there, or somebody who has taken it is about to close the stream, or the stream is
closed. -/
inductive Sealed (s : Session) : Prop where
  | manned (hwriter : s.writer = true)
  | shutting {n : Nat} {stage : Stage} (hn : s.stageOf n = some stage)
      (hshuts : stage.shuts = true)
  | closed (hclosed : s.closed = true)

theorem Sealed.apply (h : Sealed s) (e : Event) : Sealed (s.apply e) := by
  have hchange := apply_endChange s e
  cases h with
  | manned hwriter =>
    cases hchange with
    | kept hsame => exact .manned (hsame.1.trans hwriter)
    | taken n hclosed hnext =>
      obtain ⟨stage, hn, hshuts⟩ := hnext hwriter
      exact .shutting hn hshuts
    | shut hclosed => exact .closed hclosed
  | shutting hn hshuts =>
    rcases shuts_apply hn hshuts e with hclosed | hn'
    · exact .closed hclosed
    · exact .shutting hn' hshuts
  | closed hclosed =>
    cases hchange with
    | kept hsame => exact .closed (hsame.2.trans hclosed)
    | taken n hclosed' hnext => exact .closed (hclosed'.trans hclosed)
    | shut hclosed' => exact .closed hclosed'

theorem Sealed.run (h : Sealed s) (events : List Event) : Sealed (s.run events) := by
  induction events generalizing s with
  | nil => exact h
  | cons e events ih => exact ih (h.apply e)

/-- The session has stopped: its end of the stream is closed, nobody writes and nobody reads. -/
structure Shut (s : Session) : Prop where
  state : s.state = .stopped
  closed : s.closed = true
  writer : s.writer = false
  reader : s.reader = .ended

/-- In the last phase the writer is gone, and nobody is left who might yet close the stream. -/
theorem Governed.shut (hg : Governed .stopped s) (h : Sealed s) : Shut s := by
  obtain ⟨hwriter, hread⟩ := hg.manned.vacant (.inr rfl)
  refine ⟨hg.ordered.state, ?_, hwriter, hread⟩
  cases h with
  | manned hthere => cases hwriter.symm.trans hthere
  | @shutting n stage hn hshuts =>
    have hfits := hg.ordered.fits n stage hn
    rcases Stage.eq_of_shuts hshuts with ⟨error, rfl⟩ | ⟨report, rfl⟩
    · rw [Stage.role, if_pos (hg.ordered.isOpening_of_givingUp hn)] at hfits
      cases hfits.opens.2
    · cases (Phase.Fits.closes hfits).2
  | closed hclosed => exact hclosed

/-! ## Calls that stop the session -/

theorem Winding.stopped_of_over {early late : List Happening} {found : List Bool} {c : Phase}
    {outcome : Outcome} (h : Winding early late found s n) (hg : Governed c s)
    (hproper : Throughout Proper s events) (hkeep : .drop n ∉ events)
    (hbefore : ∀ outcome, s.stageOf n ≠ some (.over outcome))
    (hover : (s.run events).stageOf n = some (.over outcome)) : Governed .stopped (s.run events) := by
  induction events generalizing s c late found with
  | nil => exact absurd hover (hbefore outcome)
  | cons e events ih =>
    obtain ⟨hnow, hlater⟩ := hproper
    obtain ⟨hdrop, hkeep'⟩ := List.ne_and_not_mem_of_not_mem_cons hkeep
    by_cases hafter : ∃ outcome, (s.apply e).stageOf n = some (.over outcome)
    · obtain ⟨o, hafter⟩ := hafter
      exact (h.returns hg hnow (Ne.symm hdrop) hbefore hafter).1.run_stopped hlater
    · obtain ⟨d, -, hg'⟩ := hg.apply hnow
      exact ih (h.apply hg (Ne.symm hdrop)) hg' hlater hkeep' (fun o ho => hafter ⟨o, ho⟩) hover

/-- A call that is about to stop a session that runs, or that has stopped, does not return before the
session is shut. -/
theorem Governed.shut_of_over {early : List Happening} {c : Phase} {outcome : Outcome}
    (hg : Governed c s) (hsealed : Sealed s) (hrec : Recorded early s.registry)
    (hdes : Deserted early s) (hproper : Throughout Proper s (.step (.call n) :: events))
    (hstop : s.stageOf n = some (.fresh .stop)) (hkeep : .drop n ∉ events)
    (hstate : s.state ≠ .stopping)
    (hover : (s.run (.step (.call n) :: events)).stageOf n = some (.over outcome)) :
    Shut (s.run (.step (.call n) :: events)) := by
  refine Governed.shut ?_ (hsealed.run _)
  obtain ⟨-, hintro⟩ := (hg.ordered.fits n _ hstop).visits
  cases c with
  | running =>
    obtain ⟨mailbox, hc⟩ := exists_at hstop
    obtain ⟨d, -, hg'⟩ := hg.apply hproper.1
    obtain ⟨log, happly⟩ := apply_stop hc hg.ordered.state
    refine (hg.winding hrec hdes hc).stopped_of_over hg' hproper.2 hkeep ?_ hover
    -- It has only begun to drain the session.
    intro o ho
    rw [happly, stageOf, Table.get?_set, if_pos rfl] at ho
    cases ho
  | stopping => exact absurd hg.ordered.state hstate
  | stopped => exact hg.run_stopped hproper
  | _ => cases hintro

/-- A stop that returns leaves the session shut, whatever other calls are stopping it at the same time
and in whatever order they and the server take their steps, unless it finds the session being stopped
by somebody else. Then it returns at once as if the session had stopped, and nothing has changed but
the log. -/
theorem returned_stop_is_shut (settings : SessionSettings) (filter : DocumentFilter)
    (label : String) (processId now : Nat) (before during : List Event) (n : Nat)
    (hproper : Throughout Proper (start settings filter label processId now)
      (before ++ .step (.call n) :: during))
    (hstop : ((start settings filter label processId now).run before).stageOf n =
      some (.fresh .stop))
    (hkeep : .drop n ∉ during) :
    (((start settings filter label processId now).run before).state ≠ .stopping → ∀ outcome,
      (((start settings filter label processId now).run before).run
        (.step (.call n) :: during)).stageOf n = some (.over outcome) →
      Shut (((start settings filter label processId now).run before).run
        (.step (.call n) :: during))) ∧
    (((start settings filter label processId now).run before).state = .stopping →
      ∃ log mailbox, ((start settings filter label processId now).run before).apply
          (.step (.call n)) =
        { (start settings filter label processId now).run before with
          log
          calls := ((start settings filter label processId now).run before).calls.set n
            ⟨.over .stopped, mailbox⟩ }) := by
  have hstart := governed_start settings filter label processId now
  obtain ⟨hpast, hrest⟩ := throughout_append.mp hproper
  have hrec := run_recorded settings filter label processId now before
  have hdes := (deserted_start settings filter label processId now).run hstart
    (recorded_start ..) hpast
  rw [List.nil_append] at hdes
  obtain ⟨c, hg⟩ := hstart.run hpast
  have hsealed : Sealed (start settings filter label processId now) := .manned rfl
  refine ⟨fun hstate outcome hover => ?_, fun hstate => ?_⟩
  · exact hg.shut_of_over (hsealed.run before) hrec hdes hrest hstop hkeep hstate hover
  · obtain ⟨mailbox, hc⟩ := exists_at hstop
    obtain ⟨log, happly⟩ := apply_stop_again hc (.inr hstate)
    exact ⟨log, mailbox, happly⟩

theorem farewell_is_shut :
    ((start {} {} "custom" 0 0).run visit).state = .running ∧
      (((start {} {} "custom" 0 0).run visit).run
        (.step (.call 2) :: (farewell ++ [.step (.call 2)]))).stageOf 2 = some (.over .stopped) ∧
      Shut (((start {} {} "custom" 0 0).run visit).run
        (.step (.call 2) :: (farewell ++ [.step (.call 2)]))) := by
  obtain ⟨hstate, hstop, hover⟩ : ((start {} {} "custom" 0 0).run visit).state = .running ∧
      (((start {} {} "custom" 0 0).run visit).stageOf 2).any Stage.isStop = true ∧
      ((((start {} {} "custom" 0 0).run visit).run
        (.step (.call 2) :: (farewell ++ [.step (.call 2)]))).stageOf 2).any
          Stage.hasStopped = true := by
    decide +kernel
  have hkeep : Event.drop 2 ∉ farewell ++ [.step (.call 2)] := by simp [farewell, writes, hears]
  have hrunning : ((start {} {} "custom" 0 0).run visit).state ≠ .stopping := by
    rw [hstate]
    decide
  have hreturned := stageOf_of_any Stage.eq_of_hasStopped hover
  obtain ⟨hshut, -⟩ := returned_stop_is_shut {} {} "custom" 0 0 visit
    (farewell ++ [.step (.call 2)]) 2 farewell_proper (stageOf_of_any Stage.eq_of_isStop hstop) hkeep
  exact ⟨hstate, hreturned, hshut hrunning .stopped hreturned⟩

/-- While the first call waits for the answer to a request, a second one stops the session as well. -/
def rivalry : List Event := [.step (.call 2), .call 3 .stop, .step (.call 3)]

/-- The second call returns while the session is still being stopped, and its stream is open. -/
theorem rival_stop_returns_early :
    Throughout Proper (start {} {} "custom" 0 0) (visit ++ rivalry) ∧
      ((start {} {} "custom" 0 0).run (visit ++ rivalry)).stageOf 3 = some (.over .stopped) ∧
      ((start {} {} "custom" 0 0).run (visit ++ rivalry)).state = .stopping ∧
      ((start {} {} "custom" 0 0).run (visit ++ rivalry)).closed = false := by
  obtain ⟨hover, hstate, hclosed⟩ :
      (((start {} {} "custom" 0 0).run (visit ++ rivalry)).stageOf 3).any Stage.hasStopped = true ∧
      ((start {} {} "custom" 0 0).run (visit ++ rivalry)).state = .stopping ∧
      ((start {} {} "custom" 0 0).run (visit ++ rivalry)).closed = false := by
    decide +kernel
  refine ⟨?_, stageOf_of_any Stage.eq_of_hasStopped hover, hstate, hclosed⟩
  simp only [visit, rivalry, writes, hears, Throughout, Proper, Event.Proper, List.replicate,
    List.cons_append, List.nil_append, true_and, and_true]
  refine ⟨⟨by decide, by simp, by simp⟩, ⟨by decide, by simp, fun _ => ?_⟩,
    by decide, by simp, fun _ => ?_⟩
  · decide +kernel
  · decide +kernel

end Session

end LanguageClient
