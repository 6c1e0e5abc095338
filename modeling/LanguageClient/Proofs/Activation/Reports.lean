import LanguageClient.Proofs.Activation.Cycles

/-!
# What the report of a deactivation tells

A report has three fields, and what it says about the deactivation is worked out from them
afterwards: whether there was anything to do (`wasIdle`), whether it went well (`isClean`), and the
text. This file compares that with what has happened: the server that the call found when it took the
slot, and its own dealings with the collaborators since.

`WoundDown` follows a deactivation from stage to stage with what it has found and done so far;
**`report_tells_what_happened`** reads the report off its last stage. The report is right about the
process and about errors. But a session that is not in its last state once it has been stopped leaves
no mark on the report: without a process of its own the server passes for one that was never there
(`unstopped_session_reported_as_idle`).
-/

namespace LanguageClient

/-- The other texts speak of the session first. -/
theorem DeactivationReport.text_eq_nothing_iff (r : DeactivationReport) :
    r.text = "nothing to deactivate" ↔ r.wasIdle = true := by
  unfold text
  cases r.wasIdle with
  | true => simp
  | false =>
    simp only [Bool.false_eq_true, if_false, iff_false]
    intro h
    have hfirst := congrArg (·.toList.head?) h
    split at hfirst <;> split at hfirst <;> simp [String.toList_append] at hfirst

namespace Activation

def Deed.actor : Deed → Nat
  | .asked n _ | .answered n _ => n

def dealings (n : Nat) (trace : List Deed) : List Deed := trace.filter (·.actor == n)

variable {n m : Nat} {ask : Ask} {found : Option ActiveServer} {deeds own : List Deed}
  {stage stage' : Stage} {v' : View} {report : DeactivationReport}

theorem Turn.actor {v : View} (ht : Turn n v deeds v') : ∀ d ∈ deeds, d.actor = n := by
  cases ht <;> simp [Deed.actor]

theorem dealings_append (n : Nat) (trace deeds : List Deed) :
    dealings n (trace ++ deeds) = dealings n trace ++ dealings n deeds :=
  List.filter_append ..

theorem Turn.dealings {v : View} (ht : Turn n v deeds v') :
    dealings m deeds = if m = n then deeds else [] := by
  split
  · next h => exact List.filter_eq_self.mpr fun d hd => by simp [ht.actor d hd, h]
  · next h => exact List.filter_eq_nil_iff.mpr fun d hd => by simpa [ht.actor d hd] using Ne.symm h

/-- A deactivation on its way: the server that it found, its dealings so far, and where it stands. -/
inductive WoundDown (n : Nat) : Option ActiveServer → List Deed → Stage → Prop where
  | idle : WoundDown n none [] (.over (.deactivated .idle))
  | stopping {server : ActiveServer} :
      WoundDown n (some server) [.asked n (.stopSession server.owner)] (.stopping server)
  | attached {server : ActiveServer} (result : Except SessionError Unit) (state : SessionState)
      (hown : server.launched = false) :
      WoundDown n (some server) (stopDeeds n server result state)
        (.over (.deactivated
          { sessionStopped := state == .stopped, sessionError := stopError result }))
  | ending {server : ActiveServer} (result : Except SessionError Unit) (state : SessionState)
      (hown : server.launched = true) :
      WoundDown n (some server)
        (stopDeeds n server result state ++ [.asked n (.kill server.owner)])
        (.ending server (state == .stopped) (stopError result))
  | ended {server : ActiveServer} (result : Except SessionError Unit) (state : SessionState)
      (outcome : Termination) (hown : server.launched = true) :
      WoundDown n (some server)
        (stopDeeds n server result state ++ killDeeds n server.owner true outcome)
        (.over (.deactivated
          { sessionStopped := state == .stopped, sessionError := stopError result,
            termination := some outcome }))
  | dropped (found : Option ActiveServer) (own : List Deed) : WoundDown n found own .dropped

theorem Turn.windsDown {phase : ActivationPhase} (hask : ask.windsDown = true)
    (ht : Turn n ⟨phase, found, .queued ask⟩ deeds v') : WoundDown n found deeds v'.stage := by
  have hplan : ask.plan = none := by cases ask <;> first | rfl | cases hask
  cases ht with
  | idle => exact .idle
  | stop => exact .stopping
  | found => cases hask
  | alreadyActive h | invalid h | attach h | probe h | launch h =>
    rw [hplan] at h
    cases h

theorem WoundDown.turn {v : View} (h : WoundDown n found own v.stage) (ht : Turn n v deeds v') :
    WoundDown n found (own ++ deeds) v'.stage := by
  cases ht with
  | stopped result state hown =>
    cases h
    exact .attached result state hown
  | stoppedEnding result state hown =>
    cases h
    exact .ending result state hown
  | ended outcome =>
    cases h with
    | ending result state hown =>
      simpa [stopDeeds, killDeeds] using WoundDown.ended result state outcome hown
  | _ => cases h

theorem WoundDown.ne_fresh (h : WoundDown n found own stage) (ask : Ask) : stage ≠ .fresh ask := by
  cases h <;> intro hfresh <;> cases hfresh

theorem WoundDown.eq_idle (h : WoundDown n none own (.over (.deactivated report))) :
    own = [] ∧ report = .idle := by
  cases h
  exact ⟨rfl, rfl⟩

/-- What is left of the report is what came of stopping the session and of ending the process. -/
theorem WoundDown.report_eq {server : ActiveServer}
    (h : WoundDown n (some server) own (.over (.deactivated report))) :
    ∃ result state outcome,
      own = stopDeeds n server result state
        ++ killDeeds n server.owner server.launched outcome ∧
      report = { sessionStopped := state == .stopped, sessionError := stopError result,
                 termination := if server.launched then some outcome else none } := by
  cases h with
  | attached result state hown =>
    exact ⟨result, state, .exited, by simp [hown, killDeeds], by simp [hown]⟩
  | ended result state outcome hown =>
    exact ⟨result, state, outcome, by rw [hown], by rw [hown]; rfl⟩

theorem stopError_isNone {result : Except SessionError Unit} :
    (stopError result).isNone = true ↔ result = .ok () := by
  cases result <;> simp [stopError]

namespace Controller

variable {c c' : Controller} {e : Event}

/-- A call that has not had the slot yet has asked nobody anything. -/
def Reserved (c : Controller) : Prop :=
  ∀ n, (∀ stage, c.calls.get? n = some stage → ∃ ask, stage = .fresh ask ∨ stage = .queued ask) →
    dealings n c.trace = []

theorem Reserved.aside (h : c.Reserved) {stage : Stage} (htrace : c'.trace = c.trace)
    (hcalls : c'.calls = c.calls.set n stage)
    (hold : ∀ old, c.calls.get? n = some old → (∃ ask, stage = .fresh ask ∨ stage = .queued ask) →
      ∃ ask, old = .fresh ask ∨ old = .queued ask) : c'.Reserved := by
  intro m hm
  rw [htrace]
  refine h m fun old hm' => ?_
  rw [hcalls, Table.get?_set] at hm
  by_cases hmn : m = n
  · subst hmn
    exact hold old hm' (hm stage (if_pos rfl))
  · exact hm old (by rwa [if_neg hmn])

theorem Reserved.change (h : c.Reserved) (hchange : Change c e c') : c'.Reserved := by
  cases hchange with
  | nothing => exact h
  | called hn =>
    refine h.aside rfl rfl fun old hold _ => ?_
    rw [hn] at hold
    cases hold
  | atOnce hn _ | joined hn =>
    refine h.aside rfl rfl fun old hold _ => ?_
    rw [hn, Option.some.injEq] at hold
    exact ⟨_, .inl hold.symm⟩
  | @turned _ n _ stage' _ deeds _ _ _ ht =>
    intro m hm
    rw [ht.trace, dealings_append, ht.turn.dealings]
    by_cases hmn : m = n
    · -- Whoever has made a turn is past the queue.
      subst hmn
      obtain ⟨ask, hask⟩ := hm stage' ht.self
      rcases ht.turn.ends with hmid | ⟨outcome, hover⟩
      · rcases hask with rfl | rfl <;> cases hmid
      · rcases hask with rfl | rfl <;> cases hover
    · rw [if_neg hmn, List.append_nil]
      refine h m fun old hold => hm old ?_
      rw [ht.other hmn, hold]
  | dropped =>
    refine h.aside rfl rfl fun old _ hnew => ?_
    obtain ⟨ask, hask | hask⟩ := hnew <;> cases hask

theorem run_reserved (events : List Event) : (run {} events).Reserved :=
  (run_induction (P := fun _ c => c.Orderly ∧ c.Reserved) ⟨Orderly.initial, fun _ _ => rfl⟩
    fun _ e _ _ h => ⟨h.1.change (apply_change h.1 e), h.2.change (apply_change h.1 e)⟩).2

/-- Call `n` is a deactivation that found what it found. -/
def Winding (n : Nat) (found : Option ActiveServer) (c : Controller) : Prop :=
  ∃ stage, c.calls.get? n = some stage ∧ WoundDown n found (dealings n c.trace) stage

theorem Winding.begin (hreserved : c.Reserved) (hask : ask.windsDown = true)
    (hn : c.calls.get? n = some (.queued ask)) (hslot : c.holdsSlot n = true) :
    Winding n c.server (c.apply (.step n)) := by
  obtain ⟨deeds, stage', ht⟩ := begin_turned c n ask
  have hstep : c.apply (.step n) = c.begin n ask := by
    simp only [apply, step, hn, hslot, if_true, Option.getD_some]
  have hquiet : dealings n c.trace = [] := by
    refine hreserved n fun stage h => ?_
    rw [hn, Option.some.injEq] at h
    exact ⟨ask, .inr h.symm⟩
  rw [hstep]
  refine ⟨stage', ht.self, ?_⟩
  rw [ht.trace, dealings_append, hquiet, ht.turn.dealings, if_pos rfl]
  exact ht.turn.windsDown hask

theorem Winding.aside (h : Winding n found c) (hmn : n ≠ m) (hcalls : c'.calls = c.calls.set m stage)
    (htrace : dealings n c'.trace = dealings n c.trace) : Winding n found c' := by
  obtain ⟨stage', hn, hw⟩ := h
  exact ⟨stage', by rw [hcalls, Table.get?_set_of_ne _ _ hmn, hn], htrace ▸ hw⟩

theorem Winding.change (h : Winding n found c) (hchange : Change c e c') : Winding n found c' := by
  obtain ⟨stage, hn, hw⟩ := id h
  -- A call that has had the slot is not new, and neither is it fresh.
  have hne : ∀ m, c.calls.get? m ≠ some stage → n ≠ m := by
    rintro m hm rfl
    exact hm hn
  cases hchange with
  | nothing => exact h
  | called hm =>
    exact h.aside (hne _ (by simp [hm])) rfl rfl
  | atOnce hm _ | joined hm =>
    refine h.aside (hne _ ?_) rfl rfl
    rw [hm, Ne, Option.some.injEq]
    exact fun hfresh => hw.ne_fresh _ hfresh.symm
  | @turned _ m _ _ _ _ _ hm _ ht =>
    by_cases hmn : n = m
    · subst hmn
      rw [hn, Option.some.injEq] at hm
      subst hm
      refine ⟨_, ht.self, ?_⟩
      rw [ht.trace, dealings_append, ht.turn.dealings, if_pos rfl]
      exact hw.turn ht.turn
    · refine h.aside hmn ht.calls ?_
      rw [ht.trace, dealings_append, ht.turn.dealings, if_neg hmn, List.append_nil]
  | @dropped m _ _ _ =>
    by_cases hmn : n = m
    · subst hmn
      exact ⟨.dropped, by rw [calls_move, if_pos rfl], .dropped _ _⟩
    · exact h.aside hmn rfl rfl

theorem run_winding {before after : List Event} (hask : ask.windsDown = true)
    (hn : (run {} before).calls.get? n = some (.queued ask))
    (hslot : (run {} before).holdsSlot n = true) :
    Winding n (run {} before).server (run {} (before ++ .step n :: after)) := by
  rw [run_append]
  have ho := run_orderly Orderly.initial before
  have h := Winding.begin (run_reserved before) hask hn hslot
  exact (run_induction (P := fun _ c => c.Orderly ∧ Winding n (run {} before).server c)
    ⟨ho.change (apply_change ho _), h⟩
    fun _ e _ _ h => ⟨h.1.change (apply_change h.1 e), h.2.change (apply_change h.1 e)⟩).2

/-- **What the report of a deactivation tells.** However the call came to have the slot and whatever
happens from then on: if it found no server, it has asked nobody anything and reports that it was
idle. If it found one, it has stopped the session and ended the process, if there was one to end; the
report holds what came of either. It says that there was nothing to do exactly if there was no
process and the session was not in its last state after it had been stopped. It calls the outcome
clean exactly if the session stopped without an error and the process, if there was one, is known to
be gone; the state of the session does not matter. -/
theorem report_tells_what_happened (before after : List Event) (n : Nat) (ask : Ask)
    (report : DeactivationReport) (hask : ask.windsDown = true)
    (hn : (run {} before).calls.get? n = some (.queued ask))
    (hslot : (run {} before).holdsSlot n = true)
    (hover : (run {} (before ++ .step n :: after)).outcomeOf n = some (.deactivated report)) :
    let own := dealings n (run {} (before ++ .step n :: after)).trace
    ((run {} before).server = none → own = [] ∧ report = .idle ∧ report.wasIdle = true) ∧
    (∀ server, (run {} before).server = some server → ∃ result state outcome,
      own = stopDeeds n server result state
        ++ killDeeds n server.owner server.launched outcome ∧
      report.termination = (if server.launched then some outcome else none) ∧
      report.sessionError = stopError result ∧
      (report.wasIdle = true ↔ server.launched = false ∧ state ≠ .stopped) ∧
      (report.isClean = true ↔
        result = .ok () ∧ (server.launched = true → outcome.isTerminated = true))) ∧
    (report.text = "nothing to deactivate" ↔ report.wasIdle = true) := by
  intro own
  obtain ⟨stage, hstage, hw⟩ : Winding n _ (run {} (before ++ .step n :: after)) :=
    run_winding hask hn hslot
  rw [outcomeOf_eq_some.mp hover, Option.some.injEq] at hstage
  subst hstage
  refine ⟨fun hnone => ?_, fun server hserver => ?_, report.text_eq_nothing_iff⟩
  · obtain ⟨hown, rfl⟩ := WoundDown.eq_idle (hnone ▸ hw)
    exact ⟨hown, rfl, rfl⟩
  · rw [hserver] at hw
    obtain ⟨result, state, outcome, hown, rfl⟩ := hw.report_eq
    refine ⟨result, state, outcome, hown, rfl, rfl, ?_, ?_⟩
    · cases server.launched <;> simp [DeactivationReport.wasIdle]
    · rw [DeactivationReport.isClean, Bool.and_eq_true, stopError_isNone]
      cases server.launched <;> simp

/-- A server is launched, and a deactivation waits for the slot until it is up. -/
def broughtUp : List Event :=
  [.call 0 (.activate (.managed ⟨"server", ["lsp"], none, .piped⟩ (.stdio "server" ["lsp"]))),
    .step 0, .step 0, .answer 0 (.launched (.ok ())), .call 1 .deactivateIfBusy, .step 1,
    .answer 0 (.connected (.ok ())), .answer 0 (.opened (.ok ()))]

/-- Its session is closed before it is stopped, the process does not end, and somebody else is
dropped in the meantime. -/
def unruly : List Event :=
  [.call 2 .session, .step 2, .answer 1 (.stopped (.error .closed) .stopping), .drop 2,
    .answer 1 (.killed .unresponsive)]

theorem report_tells_of_unruly_server :
    (run {} broughtUp).server = some ⟨0, true⟩ ∧
    (run {} (broughtUp ++ .step 1 :: unruly)).outcomeOf 1 =
      some (.deactivated ⟨false, some .closed, some .unresponsive⟩) ∧
    (⟨false, some .closed, some .unresponsive⟩ : DeactivationReport).wasIdle = false ∧
    (⟨false, some .closed, some .unresponsive⟩ : DeactivationReport).isClean = false := by
  have hover : (run {} (broughtUp ++ .step 1 :: unruly)).outcomeOf 1 =
      some (.deactivated ⟨false, some .closed, some .unresponsive⟩) := rfl
  obtain ⟨-, htold, -⟩ :=
    report_tells_what_happened broughtUp unruly 1 .deactivateIfBusy _ rfl rfl rfl hover
  obtain ⟨result, state, outcome, -, -, herror, hidle, hclean⟩ := htold ⟨0, true⟩ rfl
  refine ⟨rfl, hover, Bool.eq_false_iff.mpr fun h => ?_, Bool.eq_false_iff.mpr fun h => ?_⟩
  · cases (hidle.mp h).1
  · rw [(hclean.mp h).1] at herror
    cases herror

/-- A server that runs on its own and is joined, until a deactivation has its turn. -/
def joined : List Event :=
  [.call 0 (.activate (.attached "127.0.0.1" 2077)), .step 0, .step 0,
    .answer 0 (.connected (.ok ())), .answer 0 (.opened (.ok ())), .call 1 .deactivate, .step 1]

/-- A session that is still being stopped after it has been stopped: the report has it that there was
no server, and that all is well. -/
theorem unstopped_session_reported_as_idle :
    let report : DeactivationReport := ⟨false, none, none⟩
    (run {} joined).server = some ⟨0, false⟩ ∧ (run {} joined).holdsSlot 1 = true ∧
      (run {} (joined ++ [.step 1, .answer 1 (.stopped (.ok ()) .stopping)])).outcomeOf 1 =
        some (.deactivated report) ∧
      report.wasIdle = true ∧ report.text = "nothing to deactivate" ∧ report.isClean = true :=
  ⟨rfl, rfl, rfl, rfl, rfl, rfl⟩

end Controller

end Activation

end LanguageClient
