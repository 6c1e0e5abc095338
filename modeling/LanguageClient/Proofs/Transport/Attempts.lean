import LanguageClient.Proofs.Transport.Backoff
import LanguageClient.Transport.Connector
import Mathlib.Algebra.Order.BigOperators.Group.List

/-!
# How a connect goes

What a connector does depends on the first attempt that settles the matter, and on nothing behind
it. An attempt begins with a look at the server's process. It settles the matter if the process has
ended, if the dial succeeds, or if the dial fails for good (`Decides`); otherwise it is `Undecided`
and a delay follows, unless it was the last attempt that the policy allows.

`course` says which moves a run of so many attempts consists of, without saying when a run ends. The
step lemmas (`Decides.connectFrom`, `FailsFor.connectFrom_last`, `FailsFor.connectFrom_next`) say
what one turn of the loop does with each kind of attempt, `connectFrom_rounds` repeats the last of
them, and the two ways in which a run can end are `Settles.connect` and `connect_exhausted`.

The delays of any run are the first few of those that the policy adds up (`sleeps_connectSocket`),
and all of them if the attempts run out (`sleeps_of_exhausted`), which makes the policy's total the
budget of the waiting.
-/

namespace LanguageClient

namespace ConnectRun

variable (r : ConnectRun) (move : ConnectMove) (event : Log.Event)
  (result : Except ConnectError Unit)

@[simp] theorem result_after : (r.after move).result = r.result := rfl

@[simp] theorem moves_after : (r.after move).moves = move :: r.moves := rfl

@[simp] theorem result_telling : (r.telling event).result = r.result := rfl

@[simp] theorem moves_telling : (r.telling event).moves = r.moves := rfl

@[simp] theorem result_ended : (ended result).result = result := rfl

@[simp] theorem moves_ended : (ended result).moves = [] := rfl

end ConnectRun

namespace DialWorld

variable (w : DialWorld) {result : Except ConnectError Unit}

/-- How the server is seen to have ended at an attempt, if it is. -/
def seen (k : Nat) : Option ProcessExit := w.exit.bind (· k)

/-- The look at the server with which an attempt begins, if there is a server to look at. -/
def look (k : Nat) : List ConnectMove :=
  (w.exit.map fun exit => ConnectMove.checked (exit k)).toList

/-- The moves of an attempt. A server that has ended is not dialled. -/
def attempt (k : Nat) : List ConnectMove :=
  w.look k ++ if (w.seen k).isSome then [] else [.dialled (w.dial k)]

/-- The moves of attempts that are all followed by their delays: `count` of them from number `k`. -/
def rounds (policy : RetryPolicy) (k count : Nat) : List ConnectMove :=
  (List.range' k count).flatMap fun j => w.attempt j ++ [.slept (policy.backoff j)]

/-- The moves of so many attempts with the delays between them. -/
def course (policy : RetryPolicy) : Nat → List ConnectMove
  | 0 => []
  | n + 1 => w.rounds policy 1 n ++ w.attempt (n + 1)

/-- An attempt that fails in a way which another one might mend. -/
structure FailsFor (k : Nat) (cause : IoError) : Prop where
  running : w.seen k = none
  failed : (w.dial k).failure = some cause
  retryable : cause.kind.isRetryable = true

def Undecided (k : Nat) : Prop := ∃ cause, w.FailsFor k cause

/-- An attempt that settles the matter, with the result that it gives. -/
inductive Decides (endpoint : String) (k : Nat) : Except ConnectError Unit → Prop
  | exited {exit : ProcessExit} (ended : w.seen k = some exit) :
    Decides endpoint k (.error (.serverExited exit))
  | connected (running : w.seen k = none) (answered : w.dial k = .connected) :
    Decides endpoint k (.ok ())
  | hopeless {cause : IoError} (running : w.seen k = none)
    (failed : (w.dial k).failure = some cause) (final : cause.kind.isRetryable = false) :
    Decides endpoint k (.error (.io endpoint cause))

/-- Attempt number `k` is the first to settle the matter, and the policy allows it. -/
structure Settles (policy : RetryPolicy) (endpoint : String) (k : Nat)
    (result : Except ConnectError Unit) : Prop where
  pos : 1 ≤ k
  allowed : k ≤ policy.maxAttempts
  before : ∀ j, 1 ≤ j → j < k → w.Undecided j
  decides : w.Decides endpoint k result

variable {w} {policy : RetryPolicy} {endpoint : String} {k n : Nat}

theorem decides_or_undecided (endpoint : String) (k : Nat) :
    (∃ result, w.Decides endpoint k result) ∨ w.Undecided k := by
  cases hseen : w.seen k with
  | some exit => exact .inl ⟨_, .exited hseen⟩
  | none =>
    cases hdial : (w.dial k).failure with
    | none =>
      have hconnected : w.dial k = .connected := by
        cases h : w.dial k <;> simp_all [DialOutcome.failure]
      exact .inl ⟨_, .connected hseen hconnected⟩
    | some cause =>
      cases hkind : cause.kind.isRetryable with
      | false => exact .inl ⟨_, .hopeless hseen hdial hkind⟩
      | true => exact .inr ⟨cause, hseen, hdial, hkind⟩

/-- Among the first `n` attempts there is a first that settles the matter, or there is none at all.
The induction adds the last attempt. -/
theorem first_decision (w : DialWorld) (endpoint : String) (n : Nat) :
    (∃ k result, 1 ≤ k ∧ k ≤ n ∧ (∀ j, 1 ≤ j → j < k → w.Undecided j) ∧
      w.Decides endpoint k result) ∨
    ∀ j, 1 ≤ j → j ≤ n → w.Undecided j := by
  induction n with
  | zero =>
    right
    intro j hpos hle
    omega
  | succ n ih =>
    rcases ih with ⟨k, result, hpos, hle, hbefore, hdecides⟩ | hall
    · exact .inl ⟨k, result, hpos, by omega, hbefore, hdecides⟩
    · rcases w.decides_or_undecided endpoint (n + 1) with ⟨result, hdecides⟩ | hundecided
      · refine .inl ⟨n + 1, result, by omega, by omega, ?_, hdecides⟩
        intro j hpos hlt
        exact hall j hpos (by omega)
      · right
        intro j hpos hle
        rcases Nat.lt_or_eq_of_le hle with hlt | rfl
        · exact hall j hpos (by omega)
        · exact hundecided

theorem settles_or_undecided (w : DialWorld) (policy : RetryPolicy) (endpoint : String) :
    (∃ k result, w.Settles policy endpoint k result) ∨
      ∀ j, 1 ≤ j → j ≤ policy.maxAttempts → w.Undecided j := by
  refine (w.first_decision endpoint policy.maxAttempts).imp_left ?_
  rintro ⟨k, result, hpos, hle, hbefore, hdecides⟩
  exact ⟨k, result, hpos, hle, hbefore, hdecides⟩

/-! ## One turn of the loop -/

theorem attempt_running (h : w.seen k = none) :
    w.attempt k = w.look k ++ [ConnectMove.dialled (w.dial k)] := by
  simp [attempt, h]

theorem attempt_exited {exit : ProcessExit} (h : w.seen k = some exit) :
    w.attempt k = w.look k := by
  simp [attempt, h]

theorem look_running (h : w.seen k = none) :
    w.exit = none ∧ w.look k = [] ∨
      ∃ exits, w.exit = some exits ∧ exits k = none ∧ w.look k = [.checked none] := by
  cases hexit : w.exit with
  | none => simp [look, hexit]
  | some exits =>
    have hnone : exits k = none := by simpa [seen, hexit] using h
    simp [look, hexit, hnone]

theorem look_exited {exit : ProcessExit} (h : w.seen k = some exit) :
    ∃ exits, w.exit = some exits ∧ exits k = some exit ∧ w.look k = [.checked (some exit)] := by
  obtain ⟨exits, hexit, hsome⟩ := Option.bind_eq_some_iff.mp h
  exact ⟨exits, hexit, hsome, by simp [look, hexit, hsome]⟩

/-- An attempt that settles the matter is the last, however many would be left. -/
theorem Decides.connectFrom (h : w.Decides endpoint k result) (policy : RetryPolicy) (n : Nat)
    (last : Option IoError) :
    (Connector.connectFrom policy endpoint w k (n + 1) last).result = result ∧
      (Connector.connectFrom policy endpoint w k (n + 1) last).moves = w.attempt k := by
  cases h with
  | exited ended =>
    rw [attempt_exited ended, Connector.connectFrom]
    obtain ⟨exits, hexit, hsome, hlook⟩ := look_exited ended
    simp [hexit, hsome, hlook]
  | connected running answered =>
    rw [attempt_running running, Connector.connectFrom]
    rcases look_running running with ⟨hexit, hlook⟩ | ⟨exits, hexit, hnone, hlook⟩
    · simp [hexit, hlook, answered, DialOutcome.failure]
    · simp [hexit, hnone, hlook, answered, DialOutcome.failure]
  | hopeless running failed final =>
    rw [attempt_running running, Connector.connectFrom]
    rcases look_running running with ⟨hexit, hlook⟩ | ⟨exits, hexit, hnone, hlook⟩
    · simp [hexit, hlook, failed, final]
    · simp [hexit, hnone, hlook, failed, final]

theorem FailsFor.connectFrom_last {cause : IoError} (h : w.FailsFor k cause)
    (policy : RetryPolicy) (endpoint : String) (last : Option IoError) :
    (Connector.connectFrom policy endpoint w k 1 last).result =
        .error (.retriesExhausted endpoint policy.maxAttempts cause) ∧
      (Connector.connectFrom policy endpoint w k 1 last).moves = w.attempt k := by
  obtain ⟨running, failed, retryable⟩ := h
  rw [attempt_running running]
  rcases look_running running with ⟨hexit, hlook⟩ | ⟨exits, hexit, hnone, hlook⟩
  · simp [Connector.connectFrom, hexit, hlook, failed, retryable]
  · simp [Connector.connectFrom, hexit, hnone, hlook, failed, retryable]

theorem FailsFor.connectFrom_next {cause : IoError} (h : w.FailsFor k cause)
    (policy : RetryPolicy) (endpoint : String) (n : Nat) (last : Option IoError) :
    let next := Connector.connectFrom policy endpoint w (k + 1) (n + 1) (some cause)
    (Connector.connectFrom policy endpoint w k (n + 2) last).result = next.result ∧
      (Connector.connectFrom policy endpoint w k (n + 2) last).moves =
        w.attempt k ++ .slept (policy.backoff k) :: next.moves := by
  obtain ⟨running, failed, retryable⟩ := h
  intro next
  rw [attempt_running running, Connector.connectFrom]
  rcases look_running running with ⟨hexit, hlook⟩ | ⟨exits, hexit, hnone, hlook⟩
  · simp [hexit, hlook, failed, retryable, next]
  · simp [hexit, hnone, hlook, failed, retryable, next]

/-! ## Whole runs

The induction is on the attempts that settle nothing; the last one is looked at by itself. -/

theorem rounds_succ (policy : RetryPolicy) (k count : Nat) :
    w.rounds policy k (count + 1) =
      w.attempt k ++ .slept (policy.backoff k) :: w.rounds policy (k + 1) count := by
  simp [rounds, List.range'_succ]

/-- Attempts that settle nothing are worked off one by one, as long as another one is allowed. What
the attempt before failed for does not matter then. -/
theorem connectFrom_rounds {count stop remaining : Nat}
    (h : ∀ j, k ≤ j → j < stop → w.Undecided j) (hstop : stop = k + count)
    (hremaining : remaining = n + 1 + count) (policy : RetryPolicy) (endpoint : String)
    (last : Option IoError) :
    let rest := Connector.connectFrom policy endpoint w stop (n + 1) none
    (Connector.connectFrom policy endpoint w k remaining last).result = rest.result ∧
      (Connector.connectFrom policy endpoint w k remaining last).moves =
        w.rounds policy k count ++ rest.moves := by
  subst hremaining
  induction count generalizing k last with
  | zero =>
    subst hstop
    exact ⟨rfl, rfl⟩
  | succ count ih =>
    obtain ⟨cause, hfails⟩ := h k (Nat.le_refl k) (by omega)
    have hstep := hfails.connectFrom_next policy endpoint (n + count) last
    have hrest := ih (k := k + 1) (fun j hle hlt => h j (by omega) hlt) (by omega) (some cause)
    rw [show n + 1 + count = n + count + 1 by omega] at hrest
    rw [show n + 1 + (count + 1) = n + count + 2 by omega, rounds_succ]
    refine ⟨hstep.1.trans hrest.1, hstep.2.trans ?_⟩
    rw [hrest.2]
    simp

theorem Settles.connect (h : w.Settles policy endpoint k result) :
    (Connector.connect policy endpoint w).result = result ∧
      (Connector.connect policy endpoint w).moves = w.course policy k := by
  obtain ⟨hpos, hallowed, hbefore, hdecides⟩ := h
  obtain ⟨count, rfl⟩ := Nat.exists_eq_add_of_le' hpos
  have hrounds := connectFrom_rounds hbefore (Nat.add_comm count 1)
    (show policy.maxAttempts = policy.maxAttempts - (count + 1) + 1 + count by omega)
    policy endpoint none
  have hlast := hdecides.connectFrom policy (policy.maxAttempts - (count + 1)) none
  refine ⟨hrounds.1.trans hlast.1, hrounds.2.trans ?_⟩
  rw [hlast.2, course]

theorem connect_exhausted (h : ∀ j, 1 ≤ j → j ≤ policy.maxAttempts → w.Undecided j)
    (endpoint : String) :
    (Connector.connect policy endpoint w).moves = w.course policy policy.maxAttempts ∧
      ∃ cause, (Connector.connect policy endpoint w).result =
          .error (.retriesExhausted endpoint policy.maxAttempts cause) ∧
        (0 < policy.maxAttempts → (w.dial policy.maxAttempts).failure = some cause) ∧
        (policy.maxAttempts = 0 → cause = ⟨.connectionRefused, none⟩) := by
  rw [Connector.connect]
  cases hmax : policy.maxAttempts with
  | zero =>
    rw [Connector.connectFrom, hmax]
    exact ⟨rfl, Connector.noAttempt, rfl, fun hpos => absurd hpos (by omega), fun _ => rfl⟩
  | succ count =>
    obtain ⟨cause, hfails⟩ := h (count + 1) (by omega) (by omega)
    have hrounds := connectFrom_rounds (fun j hle hlt => h j hle (by omega))
      (Nat.add_comm count 1) (show count + 1 = 0 + 1 + count by omega) policy endpoint none
    have hlast := hfails.connectFrom_last policy endpoint none
    rw [hmax] at hlast
    refine ⟨hrounds.2.trans ?_, cause, hrounds.1.trans hlast.1, fun _ => hfails.failed, ?_⟩
    · rw [hlast.2, course]
    · intro hzero
      omega

/-! ## Dials and delays -/

theorem outcome_look (w : DialWorld) (k : Nat) : (w.look k).filterMap ConnectMove.outcome = [] := by
  cases hexit : w.exit <;> simp [look, hexit, ConnectMove.outcome]

theorem delay_look (w : DialWorld) (k : Nat) : (w.look k).filterMap ConnectMove.delay = [] := by
  cases hexit : w.exit <;> simp [look, hexit, ConnectMove.delay]

theorem delay_attempt (w : DialWorld) (k : Nat) :
    (w.attempt k).filterMap ConnectMove.delay = [] := by
  cases hseen : w.seen k <;> simp [attempt, delay_look, hseen, ConnectMove.delay]

theorem outcome_attempt (w : DialWorld) (k : Nat) :
    (w.attempt k).filterMap ConnectMove.outcome =
      ([k].filter fun j => (w.seen j).isNone).map w.dial := by
  cases hseen : w.seen k <;> simp [attempt, outcome_look, hseen, ConnectMove.outcome]

theorem delay_rounds (w : DialWorld) (policy : RetryPolicy) (k count : Nat) :
    (w.rounds policy k count).filterMap ConnectMove.delay =
      (List.range' k count).map policy.backoff := by
  induction count generalizing k with
  | zero => rfl
  | succ count ih =>
    simp [rounds_succ, List.range'_succ, delay_attempt, ConnectMove.delay, ih]

theorem outcome_rounds (w : DialWorld) (policy : RetryPolicy) (k count : Nat) :
    (w.rounds policy k count).filterMap ConnectMove.outcome =
      ((List.range' k count).filter fun j => (w.seen j).isNone).map w.dial := by
  induction count generalizing k with
  | zero => rfl
  | succ count ih =>
    rw [rounds_succ, List.filterMap_append, outcome_attempt, List.filterMap_cons_none rfl, ih,
      ← List.map_append, ← List.filter_append, List.range'_succ]
    rfl

/-- Between two attempts there is one delay, that of the first of them, and none behind the last. -/
theorem delay_course (w : DialWorld) (policy : RetryPolicy) (n : Nat) :
    (w.course policy n).filterMap ConnectMove.delay =
      (List.range' 1 (n - 1)).map policy.backoff := by
  cases n with
  | zero => rfl
  | succ n => simp [course, delay_rounds, delay_attempt]

theorem outcome_course (w : DialWorld) (policy : RetryPolicy) (n : Nat) :
    (w.course policy n).filterMap ConnectMove.outcome =
      ((List.range' 1 n).filter fun j => (w.seen j).isNone).map w.dial := by
  cases n with
  | zero => rfl
  | succ n =>
    rw [course, List.filterMap_append, outcome_rounds, outcome_attempt, ← List.map_append,
      ← List.filter_append, List.range'_concat]
    simp [Nat.add_comm]

/-- However a run ends, it is a course of at most as many attempts as the policy allows, and the
server is seen to have ended at the last of them only. -/
theorem connect_moves (w : DialWorld) (policy : RetryPolicy) (endpoint : String) :
    ∃ m, m ≤ policy.maxAttempts ∧ (∀ j, 1 ≤ j → j < m → w.seen j = none) ∧
      (Connector.connect policy endpoint w).moves = w.course policy m := by
  rcases w.settles_or_undecided policy endpoint with ⟨k, result, hsettles⟩ | hall
  · refine ⟨k, hsettles.allowed, ?_, hsettles.connect.2⟩
    intro j hpos hlt
    obtain ⟨cause, hfails⟩ := hsettles.before j hpos hlt
    exact hfails.running
  · refine ⟨policy.maxAttempts, Nat.le_refl _, ?_, (connect_exhausted hall endpoint).1⟩
    intro j hpos hlt
    obtain ⟨cause, hfails⟩ := hall j hpos (Nat.le_of_lt hlt)
    exact hfails.running

/-! ## Where a dial stands

Where a dial is in a run says which attempt made it, and how long was waited before and after. -/

section

variable {front back tail : List ConnectMove} {outcome : DialOutcome}

theorem look_append (h : w.look k ++ tail = front ++ .dialled outcome :: back) :
    ∃ front', front = w.look k ++ front' ∧ tail = front' ++ .dialled outcome :: back := by
  cases hexit : w.exit with
  | none => exact ⟨front, by simp [look, hexit], by simpa [look, hexit] using h⟩
  | some exits =>
    have hlook : w.look k = [.checked (exits k)] := by simp [look, hexit]
    rw [hlook] at h ⊢
    cases front with
    | nil => cases (List.cons.inj h).1
    | cons move front' =>
      obtain ⟨rfl, htail⟩ := List.cons.inj h
      exact ⟨front', rfl, htail⟩

theorem dial_in_attempt (h : w.attempt k = front ++ .dialled outcome :: back) :
    outcome = w.dial k ∧ front = w.look k ∧ back = [] := by
  cases hseen : w.seen k with
  | some exit =>
    rw [attempt_exited hseen, ← List.append_nil (w.look k)] at h
    obtain ⟨front', -, hnone⟩ := look_append h
    simp at hnone
  | none =>
    rw [attempt_running hseen] at h
    obtain ⟨front', rfl, hdial⟩ := look_append h
    cases front' with
    | nil =>
      obtain ⟨hmove, rfl⟩ := List.cons.inj hdial
      exact ⟨(ConnectMove.dialled.inj hmove).symm, List.append_nil _, rfl⟩
    | cons move front' => simp at hdial

/-- Where a dial stands in a course: behind the rounds before it and the look at the server, and
before its delay unless it belongs to the last attempt. The induction takes the first round off. -/
theorem dial_in_rounds {count : Nat} (hrunning : ∀ j, k ≤ j → j < k + count → w.seen j = none)
    (h : w.rounds policy k count ++ w.attempt (k + count) = front ++ .dialled outcome :: back) :
    ∃ i, i ≤ count ∧ outcome = w.dial (k + i) ∧
      front = w.rounds policy k i ++ w.look (k + i) ∧
      (i = count ∧ back = [] ∨
        i < count ∧ ∃ rest, back = .slept (policy.backoff (k + i)) :: rest) := by
  induction count generalizing k front with
  | zero =>
    have hattempt : w.attempt k = front ++ .dialled outcome :: back := h
    obtain ⟨houtcome, hfront, hback⟩ := dial_in_attempt hattempt
    exact ⟨0, Nat.le_refl 0, houtcome, hfront, .inl ⟨rfl, hback⟩⟩
  | succ count ih =>
    rw [rounds_succ, attempt_running (hrunning k (Nat.le_refl k) (by omega))] at h
    simp only [List.append_assoc, List.cons_append, List.nil_append] at h
    obtain ⟨front', rfl, htail⟩ := look_append h
    cases front' with
    | nil =>
      obtain ⟨hmove, rfl⟩ := List.cons.inj htail
      refine ⟨0, by omega, (ConnectMove.dialled.inj hmove).symm, by simp [rounds], ?_⟩
      exact .inr ⟨by omega, _, rfl⟩
    | cons move front' =>
      obtain ⟨rfl, hnext⟩ := List.cons.inj htail
      cases front' with
      | nil => cases (List.cons.inj hnext).1
      | cons delay front' =>
        obtain ⟨rfl, hrest⟩ := List.cons.inj hnext
        rw [show k + (count + 1) = k + 1 + count by omega] at hrest
        obtain ⟨i, hle, houtcome, rfl, hback⟩ :=
          ih (fun j hlow hhigh => hrunning j (by omega) (by omega)) hrest
        rw [show k + 1 + i = k + (i + 1) by omega] at houtcome hback ⊢
        refine ⟨i + 1, by omega, houtcome, ?_, ?_⟩
        · rw [rounds_succ, attempt_running (hrunning k (Nat.le_refl k) (by omega))]
          simp
        · rcases hback with ⟨rfl, hnone⟩ | ⟨hlt, hrest⟩
          · exact .inl ⟨rfl, hnone⟩
          · exact .inr ⟨by omega, hrest⟩

/-- Where a dial stands in a run: it is the dial of some attempt number `i + 1`, the dials and
delays before it are those of the `i` attempts before, and what follows is its delay or nothing. -/
theorem dial_in_connect
    (h : (Connector.connect policy endpoint w).moves = front ++ .dialled outcome :: back) :
    ∃ i, i < policy.maxAttempts ∧ outcome = w.dial (i + 1) ∧
      front.filterMap ConnectMove.outcome = (List.range' 1 i).map w.dial ∧
      front.filterMap ConnectMove.delay = (List.range' 1 i).map policy.backoff ∧
      (back = [] ∨
        i + 1 < policy.maxAttempts ∧ ∃ rest, back = .slept (policy.backoff (i + 1)) :: rest) := by
  obtain ⟨m, hallowed, hrunning, hmoves⟩ := w.connect_moves policy endpoint
  cases m with
  | zero =>
    rw [hmoves] at h
    simp [course] at h
  | succ m =>
    rw [hmoves, course, Nat.add_comm m 1] at h
    obtain ⟨i, hle, houtcome, rfl, hback⟩ :=
      dial_in_rounds (fun j hpos hlt => hrunning j hpos (by omega)) h
    rw [Nat.add_comm 1 i] at houtcome hback ⊢
    refine ⟨i, by omega, houtcome, ?_, ?_, ?_⟩
    · have hall : (List.range' 1 i).filter (fun j => (w.seen j).isNone) = List.range' 1 i := by
        refine List.filter_eq_self.mpr fun j hj => ?_
        rw [List.mem_range'_1] at hj
        simp [hrunning j hj.1 (by omega)]
      rw [List.filterMap_append, outcome_rounds, outcome_look, hall, List.append_nil]
    · rw [List.filterMap_append, delay_rounds, delay_look, List.append_nil]
    · rcases hback with ⟨-, hnone⟩ | ⟨hlt, hrest⟩
      · exact .inl hnone
      · exact .inr ⟨by omega, hrest⟩

end

end DialWorld

namespace Connector

/-- A connect is settled by the first attempt that settles anything. The run has that attempt's
result and consists of the moves up to it; if the attempts run out, the result carries the failure
of the last one. The dial of attempt `i + 1` comes behind `i` dials with one delay after each, and
is followed by its own delay only if the policy allows another attempt. That delay comes before the
next look at the server, so it is there whatever the look shows. -/
theorem first_decision_settles (policy : RetryPolicy) (host : String) (port : UInt16)
    (w : DialWorld) :
    let endpoint := Transport.endpointText host port
    let run := connectSocket policy host port (.ok ()) w
    (∀ k result, w.Settles policy endpoint k result →
      run.result = result ∧ run.moves = w.course policy k) ∧
    ((∀ j, 1 ≤ j → j ≤ policy.maxAttempts → w.Undecided j) →
      run.moves = w.course policy policy.maxAttempts ∧
      ∃ cause, run.result = .error (.retriesExhausted endpoint policy.maxAttempts cause) ∧
        (0 < policy.maxAttempts → (w.dial policy.maxAttempts).failure = some cause) ∧
        (policy.maxAttempts = 0 → cause = ⟨.connectionRefused, none⟩)) ∧
    ((∃ k result, w.Settles policy endpoint k result) ∨
      ∀ j, 1 ≤ j → j ≤ policy.maxAttempts → w.Undecided j) ∧
    run.dials.length ≤ policy.maxAttempts ∧
    ∀ front outcome back, run.moves = front ++ .dialled outcome :: back →
      ∃ i, i < policy.maxAttempts ∧ outcome = w.dial (i + 1) ∧
        front.filterMap ConnectMove.outcome = (List.range' 1 i).map w.dial ∧
        front.filterMap ConnectMove.delay = (List.range' 1 i).map policy.backoff ∧
        (back = [] ∨
          i + 1 < policy.maxAttempts ∧ ∃ rest, back = .slept (policy.backoff (i + 1)) :: rest) := by
  intro endpoint run
  refine ⟨?_, ?_, ?_, ?_, ?_⟩
  · intro k result hsettles
    exact hsettles.connect
  · intro hall
    exact DialWorld.connect_exhausted hall endpoint
  · exact w.settles_or_undecided policy endpoint
  · obtain ⟨m, hallowed, -, hmoves⟩ := w.connect_moves policy endpoint
    have hdials : run.dials = ((List.range' 1 m).filter fun j => (w.seen j).isNone).map w.dial := by
      rw [← w.outcome_course policy m, ← hmoves]
      rfl
    rw [hdials, List.length_map]
    refine (List.length_filter_le ..).trans ?_
    rwa [List.length_range']
  · intro front outcome back h
    exact DialWorld.dial_in_connect h

/-- A server that refuses a dial, does not answer the next, and may not be dialled at all. -/
theorem forbidden_after_silence :
    let w : DialWorld :=
      { exit := some fun _ => none
        dial := fun k =>
          if k = 1 then .failed ⟨.connectionRefused, none⟩
          else if k = 2 then .silent
          else .failed ⟨.permissionDenied, none⟩ }
    let endpoint := Transport.endpointText "localhost" 2077
    w.Settles {} endpoint 3 (.error (.io endpoint ⟨.permissionDenied, none⟩)) ∧
    (connectSocket {} "localhost" 2077 (.ok ()) w).moves =
      [.checked none, .dialled (.failed ⟨.connectionRefused, none⟩), .slept (.ofMillis 50),
        .checked none, .dialled .silent, .slept (.ofMillis 100),
        .checked none, .dialled (.failed ⟨.permissionDenied, none⟩)] := by
  intro w endpoint
  have hsettles : w.Settles {} endpoint 3 (.error (.io endpoint ⟨.permissionDenied, none⟩)) := by
    refine ⟨by decide, by decide, ?_, .hopeless rfl rfl rfl⟩
    intro j hpos hlt
    obtain rfl | rfl : j = 1 ∨ j = 2 := by omega
    · exact ⟨_, rfl, rfl, rfl⟩
    · exact ⟨_, rfl, rfl, rfl⟩
  exact ⟨hsettles, ((first_decision_settles {} "localhost" 2077 w).1 3 _ hsettles).2⟩

end Connector

/-! ## The waiting budget -/

/-- How long a connector waited in all, in nanoseconds. -/
def ConnectRun.waited (r : ConnectRun) : Nat := (r.sleeps.map Duration.nanos).sum

/-- A world in which nobody ever listens. -/
def DialWorld.deserted : DialWorld :=
  { exit := none, dial := fun _ => .failed ⟨.connectionRefused, none⟩ }

theorem DialWorld.deserted_undecided (k : Nat) : deserted.Undecided k := ⟨_, rfl, rfl, rfl⟩

namespace RetryPolicy

open Connector

variable {p : RetryPolicy} {host : String} {port : UInt16} {resolution : Except IoError Unit}
  {w : DialWorld}

theorem delays_eq (p : RetryPolicy) :
    p.delays = (List.range' 1 (p.maxAttempts - 1)).map p.backoff := by
  rw [delays, List.range'_eq_map_range, List.map_map]
  refine List.map_congr_left fun i _ => ?_
  simp [Nat.add_comm]

/-- The delays of a run are the first few delays of the policy. -/
theorem sleeps_connectSocket (p : RetryPolicy) (host : String) (port : UInt16)
    (resolution : Except IoError Unit) (w : DialWorld) :
    ∃ m, m ≤ p.maxAttempts ∧ (connectSocket p host port resolution w).sleeps =
      (List.range' 1 (m - 1)).map p.backoff := by
  cases resolution with
  | error cause => exact ⟨0, Nat.zero_le _, rfl⟩
  | ok _ =>
    obtain ⟨m, hallowed, -, hmoves⟩ := w.connect_moves p (Transport.endpointText host port)
    refine ⟨m, hallowed, ?_⟩
    rw [← w.delay_course p m, ← hmoves]
    rfl

/-- A run that exhausts the attempts has made all of them in vain. -/
theorem undecided_of_exhausted {endpoint : String} {attempts : Nat} {cause : IoError}
    (h : (connectSocket p host port resolution w).result =
      .error (.retriesExhausted endpoint attempts cause)) :
    resolution = .ok () ∧ ∀ j, 1 ≤ j → j ≤ p.maxAttempts → w.Undecided j := by
  cases resolution with
  | error cause => cases h
  | ok _ =>
    refine ⟨rfl, ?_⟩
    rcases w.settles_or_undecided p (Transport.endpointText host port) with
      ⟨k, result, hsettles⟩ | hall
    · have hresult : result = .error (.retriesExhausted endpoint attempts cause) :=
        hsettles.connect.1.symm.trans h
      cases hsettles.decides <;> cases hresult
    · exact hall

theorem sleeps_of_exhausted {endpoint : String} {attempts : Nat} {cause : IoError}
    (h : (connectSocket p host port resolution w).result =
      .error (.retriesExhausted endpoint attempts cause)) :
    (connectSocket p host port resolution w).sleeps = p.delays := by
  obtain ⟨rfl, hall⟩ := undecided_of_exhausted h
  have hmoves := (DialWorld.connect_exhausted hall (Transport.endpointText host port)).1
  rw [delays_eq, ← w.delay_course p p.maxAttempts, ← hmoves]
  rfl

/-- Less attempts, less waiting: the other delays of the policy only add to the sum. -/
theorem waited_le (p : RetryPolicy) (host : String) (port : UInt16)
    (resolution : Except IoError Unit) (w : DialWorld) :
    (connectSocket p host port resolution w).waited ≤ (p.delays.map Duration.nanos).sum := by
  obtain ⟨m, hallowed, hsleeps⟩ := sleeps_connectSocket p host port resolution w
  have hsplit : List.range' 1 (p.maxAttempts - 1) =
      List.range' 1 (m - 1) ++ List.range' (1 + (m - 1)) (p.maxAttempts - 1 - (m - 1)) := by
    rw [List.range'_append_1]
    congr 1
    omega
  rw [ConnectRun.waited, hsleeps, delays_eq, hsplit, List.map_append, List.map_append,
    List.sum_append]
  exact Nat.le_add_right ..

theorem sum_delays_le (p : RetryPolicy) :
    (p.delays.map Duration.nanos).sum ≤ (p.maxAttempts - 1) * p.maxBackoff.nanos := by
  have hle := List.sum_le_card_nsmul (p.delays.map Duration.nanos) p.maxBackoff.nanos (by
    intro nanos hmem
    simp only [delays, List.map_map, List.mem_map] at hmem
    obtain ⟨i, -, rfl⟩ := hmem
    exact p.backoff_le (i + 1))
  simpa [delays] using hle

/-- The total backoff is the budget of the waiting: exactly what a run waits that exhausts all
attempts, and at least what any run waits. It is missing exactly if that is too long for a
duration. -/
theorem total_backoff_is_waiting_budget (p : RetryPolicy) :
    (∀ host port resolution w endpoint attempts cause,
      (connectSocket p host port resolution w).result =
        .error (.retriesExhausted endpoint attempts cause) →
      (∀ total, p.totalBackoff = some total ↔
        total.nanos = (connectSocket p host port resolution w).waited) ∧
      (p.totalBackoff = none ↔
        Duration.maxNanos < (connectSocket p host port resolution w).waited)) ∧
    (∀ total, p.totalBackoff = some total →
      (∀ host port resolution w,
        (connectSocket p host port resolution w).waited ≤ total.nanos) ∧
      total.nanos ≤ (p.maxAttempts - 1) * p.maxBackoff.nanos) ∧
    ((p.maxAttempts - 1) * p.maxBackoff.nanos ≤ Duration.maxNanos → p.totalBackoff ≠ none) ∧
    ∀ host port, ∃ w cause, (connectSocket p host port (.ok ()) w).result =
      .error (.retriesExhausted (Transport.endpointText host port) p.maxAttempts cause) := by
  refine ⟨?_, ?_, ?_, ?_⟩
  · intro host port resolution w endpoint attempts cause h
    rw [ConnectRun.waited, sleeps_of_exhausted h]
    exact ⟨fun total => Duration.sum?_eq_some_iff, Duration.sum?_eq_none_iff⟩
  · intro total htotal
    have hnanos : total.nanos = (p.delays.map Duration.nanos).sum :=
      Duration.sum?_eq_some_iff.mp htotal
    rw [hnanos]
    exact ⟨p.waited_le, p.sum_delays_le⟩
  · intro hfits hnone
    have hlong := Duration.sum?_eq_none_iff.mp hnone
    have hbound := p.sum_delays_le
    omega
  · intro host port
    have hall : ∀ j, 1 ≤ j → j ≤ p.maxAttempts → DialWorld.deserted.Undecided j :=
      fun j _ _ => DialWorld.deserted_undecided j
    obtain ⟨-, cause, hresult, -⟩ :=
      DialWorld.connect_exhausted hall (Transport.endpointText host port)
    exact ⟨.deserted, cause, hresult⟩

/-- Twenty attempts in vain take eight and a quarter seconds of waiting. -/
theorem standard_waiting_budget :
    let run := connectSocket {} "localhost" 2077 (.ok ()) .deserted
    run.result = .error (.retriesExhausted (Transport.endpointText "localhost" 2077) 20
      ⟨.connectionRefused, none⟩) ∧
    totalBackoff {} = some (.ofMillis 8250) ∧ run.waited = (Duration.ofMillis 8250).nanos := by
  intro run
  have hresult : run.result = .error (.retriesExhausted (Transport.endpointText "localhost" 2077)
      20 ⟨.connectionRefused, none⟩) := rfl
  have htotal : totalBackoff {} = some (.ofMillis 8250) := by decide
  obtain ⟨hbudget, -⟩ := (total_backoff_is_waiting_budget {}).1 _ _ _ _ _ _ _ hresult
  exact ⟨hresult, htotal, ((hbudget _).mp htotal).symm⟩

end RetryPolicy

end LanguageClient
