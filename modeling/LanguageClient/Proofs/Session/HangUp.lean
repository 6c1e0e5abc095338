import LanguageClient.Proofs.Session.Course
import LanguageClient.Proofs.Session.Fairness
import LanguageClient.Proofs.Session.Refinement

/-!
# A hang-up strands nobody

When the server's stream ends, the reader does two things, one after the other: it marks the session
as hung up, and it gives up all pending requests. A request, on its part, is registered first and
looks for the mark second. So whoever is registered before the requests are given up is told that
nobody will answer, and whoever is registered later finds the mark. Nobody waits for a reply that
cannot come, in whatever order the steps are taken.

That is a matter of safety and of progress. Once the hang-up is complete, a request in the table has
yet to look for the mark (`Severed.entry`), and a request without a response can only fail
(`Registry.Forsaken.denied`). In a fair run it does fail (`Severed.returns`), even if it stands in
the queue for the writer behind others. And a call that begins after the mark fails at once.
-/

namespace LanguageClient

namespace Session

variable {s s' : Session} {e : Event} {n : Nat} {hs : List Happening}

/-! ## Requests without a response

Once the server has hung up no response comes any more, so whoever has none stays without. -/

/-- Call `n` has been handed no response to the request that it has under way. -/
def Registry.Forsaken (r : Registry) (n : Nat) : Prop :=
  ∀ t response, r.track n = some t → t.reply ≠ some (.answered response)

theorem Registry.Forsaken.shift {r r' : Registry} (hfor : r.Forsaken n) (h : Sound r)
    (hshift : Shift r hs r') (hend : r.reader = .ended) : r'.Forsaken n := by
  intro u response hu
  cases h.stems_of_shift hshift hu with
  | new heq =>
    subst heq
    nofun
  | @old t ht hid _ hreply =>
    rcases hreply with hsame | ⟨-, habandoned | hread⟩
    · exact hsame ▸ hfor t response ht
    · rw [habandoned]
      nofun
    · rw [hend] at hread
      cases hread

theorem Shift.hungUp {r r' : Registry} (h : Shift r hs r') (hup : r.hungUp = true)
    (hend : r.reader = .ended) : r'.hungUp = true ∧ r'.reader = .ended := by
  cases h with
  | ending hread | marked hread | cleared hread | aborted hread =>
    rw [hend] at hread
    cases hread
  | _ => exact ⟨hup, hend⟩

theorem Registry.Forsaken.denied {id : Nat} {result : Except SessionError Json}
    (hfor : s.registry.Forsaken n) (h : Change s e hs s') (hr : hs = [.resolved n id result]) :
    ∃ error, result = .error error ∧ Denied n e error := by
  rcases h.resolved_by hr with hdenied | ⟨rfl, reply, rfl, deadline, purpose, hc⟩
  · exact hdenied
  · cases reply with
    | answered response => exact absurd rfl (hfor _ response (track_of_get? hc))
    | abandoned => exact ⟨.closed, rfl, .closed⟩

/-! ## After a hang-up

The mark is set before the table is cleared. Whoever registers in between finds the mark, and
whoever has looked before is cleared. -/

/-- A session that has seen a hang-up through. -/
structure Severed (s : Session) : Prop where
  sound : Sound s.registry
  lined : Lined s
  hungUp : s.hungUp = true
  ended : s.reader = .ended

theorem Severed.apply (h : Severed s) (e : Event) : Severed (s.apply e) := by
  have hshift := (apply_change s e).shift
  obtain ⟨hup, hend⟩ := hshift.hungUp h.hungUp h.ended
  exact ⟨h.sound.shift hshift, h.lined.apply e, hup, hend⟩

theorem Severed.forsaken_run (h : Severed s) (hfor : s.registry.Forsaken n) (later : List Event) :
    Severed (s.run later) ∧ (s.run later).registry.Forsaken n := by
  induction later generalizing s with
  | nil => exact ⟨h, hfor⟩
  | cons e later ih =>
    exact ih (h.apply e) (hfor.shift h.sound (apply_change s e).shift h.ended)

/-- Whoever is still in the table has yet to look whether the server has hung up. -/
theorem Severed.entry (h : Severed s) {id : Nat} (hp : s.pending.get? id = some n) :
    ∃ request deadline purpose,
      s.At n (.working (.exchange (.registered request id)) deadline purpose) none := by
  obtain ⟨t, ht, rfl, hnone⟩ := (h.sound.waiting id n).mp hp
  have htested : t.tested ≠ true := fun htest => h.sound.served h.hungUp h.ended n t ht htest hnone
  obtain ⟨stage, hc, hreq⟩ := track_eq_some ht
  rw [hnone] at hc
  unfold Stage.request at hreq
  split at hreq
  · next request id deadline purpose =>
    obtain ⟨rfl, -⟩ := Prod.mk.inj (Option.some.inj hreq)
    exact ⟨request, deadline, purpose, hc⟩
  · exact absurd (Prod.mk.inj (Option.some.inj hreq)).2.symm htested
  · exact absurd (Prod.mk.inj (Option.some.inj hreq)).2.symm htested
  · cases hreq

/-- Whoever has looked before the mark was set has been handed a reply and is in the table no more. -/
theorem Severed.served (h : Severed s) {exchange : Exchange} {id : Nat} {deadline : Option Nat}
    {purpose : Purpose} {mailbox : Option Reply}
    (hc : s.At n (.working (.exchange exchange) deadline purpose) mailbox)
    (hid : exchangeId exchange = some id) (htest : ∀ request, exchange ≠ .registered request id) :
    (∃ reply, mailbox = some reply) ∧ s.pending.get? id = none := by
  have ht : s.track n = some ⟨id, true, mailbox⟩ := by
    rw [track_of_get? hc]
    cases exchange with
    | fresh method params => cases hid
    | registered request id' => exact absurd (Option.some.inj hid ▸ rfl) (htest request)
    | sending id' sending => exact Option.some.inj hid ▸ rfl
    | awaiting id' => exact Option.some.inj hid ▸ rfl
  have hreply : mailbox ≠ none := h.sound.served h.hungUp h.ended n _ ht rfl
  refine ⟨Option.ne_none_iff_exists'.mp hreply, ?_⟩
  cases hp : s.pending.get? id with
  | none => rfl
  | some m =>
    obtain ⟨u, hu, hidu, hnone⟩ := (h.sound.waiting id m).mp hp
    obtain rfl : m = n := h.sound.unique m n u _ hu ht hidu
    obtain rfl : u = _ := Option.some.inj (hu.symm.trans ht)
    exact absurd hnone hreply

/-! ## Everybody returns

A request is led to its end by a pair of numbers that goes down: the places of its exchange, and
within one place the work before it at the writer. -/

/-- Call `n` has a request on its way and has been handed no response to it. -/
def Asking (s : Session) (n : Nat) (exchange : Exchange) (deadline : Option Nat)
    (purpose : Purpose) : Prop :=
  s.stageOf n = some (.working (.exchange exchange) deadline purpose) ∧ s.registry.Forsaken n

def rankOf (s : Session) (n : Nat) : Nat :=
  match s.stageOf n with
  | some (.working (.exchange exchange) _ _) => exchange.rank
  | _ => 0

def inLine (s : Session) (n : Nat) : Bool := (s.errand (.call n)).isSome

/-- How much is to happen until the exchange of call `n` is over: the places it has yet to go
through, and then, in the queue for the writer, what has to be done there. -/
def distance (s : Session) (n : Nat) : Nat × Nat :=
  (5 - s.rankOf n, if s.inLine n then s.ahead (.call n) else 0)

/-- What the exchange of call `n` needs: in the queue what the head of the queue needs, and a step of
its own otherwise. -/
def needOf (s : Session) (n : Nat) : Need :=
  if s.inLine n then (s.queue.head?.map s.needAt).getD (.step (.call n)) else .step (.call n)

theorem Exchange.rank_le (exchange : Exchange) : exchange.rank ≤ 5 := by
  cases exchange with
  | sending id sending => cases sending <;> simp [Exchange.rank]
  | _ => simp [Exchange.rank]

section
variable {exchange next : Exchange} {deadline : Option Nat} {purpose : Purpose}
  {mailbox : Option Reply}

theorem rankOf_eq (h : s.stageOf n = some (.working (.exchange exchange) deadline purpose)) :
    s.rankOf n = exchange.rank := by
  rw [rankOf, h]

theorem inLine_eq (h : s.stageOf n = some (.working (.exchange exchange) deadline purpose)) :
    s.inLine n = (exchange.rank == 3 || exchange.rank == 4) := by
  rw [inLine, errand_call h]
  cases exchange with
  | sending id sending => cases sending <;> rfl
  | _ => rfl

theorem stageOf_of_going {work next : Work} {mid : Session}
    (hc : s.At n (.working work deadline purpose) mailbox)
    (hg : s.workStep n mailbox work = .going mid next) (hmid : mid.stageOf n = s.stageOf n) :
    (s.apply (.step (.call n))).stageOf n = some (.working next deadline purpose) := by
  rw [apply_of_going hc hg]
  exact stageOf_moved (hmid.trans (stageOf_of_get? hc))

/-- After a hang-up, an exchange that is not in the queue for the writer goes on by a step of its
call, or comes to a result. -/
theorem Severed.moves (h : Severed s)
    (hc : s.At n (.working (.exchange exchange) deadline purpose) mailbox)
    (hline : s.inLine n = false)
    (hnext : (s.apply (.step (.call n))).stageOf n =
      some (.working (.exchange next) deadline purpose)) :
    exchange.rank < next.rank ∨
      ∃ id result, s.happenings (.step (.call n)) = [.resolved n id result] := by
  have hgoing : ∀ {mid : Session} {next' : Exchange},
      s.workStep n mailbox (.exchange exchange) = .going mid (.exchange next') →
      mid.stageOf n = s.stageOf n → next' = next := by
    intro mid next' hg hmid
    have hst := (stageOf_of_going hc hg hmid).symm.trans hnext
    injection hst with hst
    injection hst with hwork
    injection hwork
  cases exchange with
  | fresh method params =>
    left
    obtain rfl := hgoing rfl (stageOf_clearMailbox s n)
    simp [Exchange.rank]
  | registered request id =>
    right
    refine ⟨id, .error .closed, ?_⟩
    rw [happenings_exchange hc rfl, exchangeStep, if_pos h.hungUp]
  | sending id sending =>
    cases sending with
    | fresh payload =>
      left
      obtain rfl := hgoing rfl rfl
      simp [Exchange.rank]
    | _ =>
      rw [inLine_eq (stageOf_of_get? hc)] at hline
      cases hline
  | awaiting id =>
    right
    obtain ⟨⟨reply, rfl⟩, -⟩ := h.served hc rfl (fun _ heq => by cases heq)
    refine ⟨id, reply.result, ?_⟩
    rw [happenings_exchange hc rfl]
    rfl

/-- As long as an exchange lasts it comes closer to its end with every event, unless what it needs
stays the same and does not come. -/
theorem Severed.approaches (h : Severed s)
    (hst : s.stageOf n = some (.working (.exchange exchange) deadline purpose))
    (hst' : (s.apply e).stageOf n = some (.working (.exchange next) deadline purpose))
    (hrank : exchange.rank ≤ next.rank)
    (hno : ∀ id result, s.happenings e ≠ [.resolved n id result]) :
    Prod.Lex (· < ·) (· < ·) ((s.apply e).distance n) (s.distance n) ∨
      (s.apply e).distance n = s.distance n ∧ (s.apply e).needOf n = s.needOf n ∧
        ¬ (s.needOf n).Met s e := by
  rcases Nat.lt_or_eq_of_le hrank with hlt | heq
  · refine .inl (.left _ _ ?_)
    have hle := Exchange.rank_le next
    rw [rankOf_eq hst, rankOf_eq hst']
    omega
  · have hrankOf : (s.apply e).rankOf n = s.rankOf n := by
      rw [rankOf_eq hst, rankOf_eq hst', heq]
    have hline : (s.apply e).inLine n = s.inLine n := by
      rw [inLine_eq hst, inLine_eq hst', heq]
    cases hin : s.inLine n with
    | false =>
      rw [hin] at hline
      refine .inr ⟨by simp [distance, hrankOf, hline, hin], by simp [needOf, hline, hin], ?_⟩
      intro hmet
      obtain rfl : e = .step (.call n) := by simpa [needOf, hin, Need.Met] using hmet
      obtain ⟨mailbox, hc⟩ := exists_at hst
      rcases h.moves hc hin hst' with hlt | ⟨id, result, hr⟩
      · omega
      · exact hno id result hr
    | true =>
      rw [hin] at hline
      have hturn := (apply_change s e).turn h.lined.numbered
      have hmem := (h.lined.queued (.call n)).mpr hin
      have hmem' := ((h.apply e).lined.queued (.call n)).mpr hline
      obtain ⟨a, hhead, hlt | ⟨heq, hhead', ha⟩⟩ := hturn.ahead h.lined hmem hmem'
      · left
        rw [distance, distance, hrankOf, hline, hin]
        exact .right _ hlt
      · refine .inr ⟨by simp [distance, hrankOf, hline, hin, heq], ?_, fun hmet => ?_⟩
        · simp [needOf, hline, hin, hhead, hhead', needAt_congr ha]
        · have hneed : s.needOf n = s.needAt a := by simp [needOf, hin, hhead]
          exact progress h.lined hhead (hneed ▸ hmet) ha

/-- By event `e` request `id` of call `n` fails as requests do after a hang-up, and the call of a
user's request is over with that failure. -/
def Fails (s : Session) (n id : Nat) (purpose : Purpose) (e : Event) : Prop :=
  ∃ error, Denied n e error ∧ s.happenings e = [.resolved n id (.error error)] ∧
    (purpose = .answer → (s.apply e).stageOf n = some (.over (.failed error)))

/-- One event: the request fails, its deadline has passed, or it goes on. -/
theorem Severed.asking_step (h : Severed s) (hask : s.Asking n exchange deadline purpose)
    (hkeep : e ≠ .drop n) :
    (∃ id, exchangeId exchange = some id ∧ s.Fails n id purpose e) ∨
      (∃ d, deadline = some d ∧ d ≤ s.now) ∨
      ∃ next, (s.apply e).Asking n next deadline purpose ∧ exchange.rank ≤ next.rank ∧
        (∀ id, exchangeId exchange = some id → exchangeId next = some id) ∧
        ∀ id result, s.happenings e ≠ [.resolved n id result] := by
  obtain ⟨hst, hfor⟩ := hask
  obtain ⟨mailbox, hc⟩ := exists_at hst
  have hchange := apply_change s e
  have hfor' := hfor.shift h.sound hchange.shift h.ended
  unfold Fails
  generalize s.happenings e = hs at hchange ⊢
  generalize s.apply e = s' at hchange hfor' ⊢
  cases hchange.fate hc with
  | @remains _ _ _ next hst' hrank hid hno =>
    exact .inr (.inr ⟨next, ⟨hst', hfor'⟩, hrank, hid, hno⟩)
  | @resolved _ mid id result hid hmid =>
    obtain ⟨error, rfl, hdenied⟩ := hfor.denied hchange rfl
    refine .inl ⟨id, hid, error, hdenied, rfl, ?_⟩
    rintro rfl
    exact stageOf_answer _ (hmid.trans hst)
  | @expired _ _ d hd hnow => exact .inr (.inl ⟨d, hd, hnow⟩)
  | dropped hgone => exact absurd rfl hkeep

/-- In a fair run every request that is on its way after a hang-up, without a response, fails, unless
its caller loses interest or its deadline passes. -/
theorem Severed.returns {σ : Nat → Event} (h : Severed s)
    (hask : s.Asking n exchange deadline purpose) (hfair : Fair s σ) (hkeep : ∀ k, σ k ≠ .drop n) :
    ∃ k, (∃ id, (s.along σ k).Fails n id purpose (σ k) ∧
        ∀ id', exchangeId exchange = some id' → id = id') ∨
      ∃ d, deadline = some d ∧ d ≤ (s.along σ k).now := by
  refine (Fair.leads_to (A := fun _ e => e ≠ .drop n)
    (P := fun s => Severed s ∧ ∃ next, s.Asking n next deadline purpose ∧
      ∀ id, exchangeId exchange = some id → exchangeId next = some id)
    (Q := fun s e => (∃ id, s.Fails n id purpose e ∧
      ∀ id', exchangeId exchange = some id' → id = id') ∨ ∃ d, deadline = some d ∧ d ≤ s.now)
    (Nat.lt_wfRel.wf.prod_lex Nat.lt_wfRel.wf) (distance · n) (needOf · n) ?_ hfair hkeep
    ⟨h, exchange, hask, fun _ => id⟩).imp fun k hk => hk.2
  rintro s e hne ⟨h, current, hask, hid⟩
  rcases h.asking_step hask hne with ⟨id, hcur, hfails⟩ | hpassed | ⟨next, hask', hrank, hid', hno⟩
  · refine .inl (.inl ⟨id, hfails, fun id' hid' => ?_⟩)
    exact Option.some.inj (hcur.symm.trans (hid id' hid'))
  · exact .inl (.inr hpassed)
  · refine .inr ⟨⟨h.apply e, next, hask', fun id h => hid' id (hid id h)⟩, ?_⟩
    exact h.approaches hask.1 hask'.1 hrank hno

end

theorem Severed.along (h : Severed s) (σ : Nat → Event) (k : Nat) : Severed (s.along σ k) := by
  induction k with
  | zero => exact h
  | succ k ih => exact ih.apply (σ k)

theorem View.Course.stays_of_admitted {h h' : View} {out : List Dispatch} {ask : Ask}
    (hcourse : h.Course e hs out h') (hn : h.stage n = some (.admitted ask)) (hdrop : e ≠ .drop n)
    (hstep : e ≠ .step (.call n)) : h'.stage n = some (.admitted ask) := by
  cases hcourse.lot hn hdrop with
  | stays hstage => exact hstage
  | moves hm => exact absurd rfl hstep
  | pours id hstage | refuses id hstage => cases hstage

/-- In a fair run, a request that has been let in goes on to its exchange. -/
theorem Fair.asks {σ : Nat → Event} {method : String} {params : Option Json} (hfair : Fair s σ)
    (hl : Lined s) (hn : s.stageOf n = some (.admitted (.request method params)))
    (hkeep : ∀ k, σ k ≠ .drop n) :
    ∃ k, (s.along σ (k + 1)).stageOf n =
      some (.working (.exchange (.fresh method params)) none .answer) := by
  refine (Fair.leads_to (A := fun _ e => e ≠ .drop n)
    (P := fun s => Lined s ∧ s.stageOf n = some (.admitted (.request method params)))
    (Q := fun s e => (s.apply e).stageOf n =
      some (.working (.exchange (.fresh method params)) none .answer))
    Nat.lt_wfRel.wf (fun _ => 0) (fun _ => .step (.call n)) ?_ hfair hkeep ⟨hl, hn⟩).imp
    fun k hk => hk.2
  rintro s e hne ⟨hl, hn⟩
  by_cases hmet : e = .step (.call n)
  · left
    rw [hmet, apply_of_admitted hn]
    exact stageOf_moved hn
  · have hstays := (course hl e).stays_of_admitted hn hne hmet
    exact .inr ⟨⟨hl.apply e, hstays⟩, .inr ⟨rfl, rfl, hmet⟩⟩

/-- A request that had only been let in when the server hung up has no reply when it is registered,
and so it fails like the others. -/
theorem Severed.admitted_returns {σ : Nat → Event} {method : String} {params : Option Json}
    (h : Severed s) (hn : s.stageOf n = some (.admitted (.request method params)))
    (hfair : Fair s σ) (hkeep : ∀ k, σ k ≠ .drop n) :
    ∃ k id, (s.along σ k).Fails n id .answer (σ k) := by
  obtain ⟨k, hasks⟩ := hfair.asks h.lined hn hkeep
  have hfor : (s.along σ (k + 1)).registry.Forsaken n := by
    obtain ⟨mailbox, hc⟩ := exists_at hasks
    intro t response ht
    cases (track_of_get? hc).symm.trans ht
  obtain ⟨j, ⟨id, hfails, -⟩ | ⟨d, hd, -⟩⟩ := (h.along σ (k + 1)).returns ⟨hasks, hfor⟩
    (hfair.tail (k + 1)) (fun j => hkeep (k + 1 + j))
  · exact ⟨k + 1 + j, id, along_add s σ (k + 1) j ▸ hfails⟩
  · cases hd

/-! ## Latecomers -/

/-- A request, a notification or a document event that begins on a running session after the mark
is set fails at once, and that is all that happens. -/
theorem apply_of_denied {ask : Ask} {mailbox : Option Reply} {error : SessionError}
    (hc : s.At n (.fresh ask) mailbox) (hopen : ask ≠ .opening) (hstop : ask ≠ .stop)
    (hdenied : s.welcome = .error error) :
    s.apply (.step (.call n)) =
      { s with calls := s.calls.set n ⟨.over (.failed error), mailbox⟩ } := by
  have hmove : s.openCall n ask = s.moveCall n (.over (.failed error)) := by
    cases ask with
    | opening => exact absurd rfl hopen
    | stop => exact absurd rfl hstop
    | _ => simp [openCall, hdenied, finishCall]
  have happly : s.apply (.step (.call n)) = s.openCall n ask := by simp [apply, step, callStep, hc]
  rw [happly, hmove, moveCall, hc]

/-! ## A hang-up strands nobody -/

structure StrandsNobody (s : Session) : Prop where
  /-- Once the hang-up is complete, whoever is in the table of pending requests does not wait there:
  it has been registered since, and has yet to look for the mark. -/
  entries : s.hungUp = true → s.reader = .ended → ∀ id n, s.pending.get? id = some n →
    ∃ request deadline purpose,
      s.At n (.working (.exchange (.registered request id)) deadline purpose) none
  /-- Whoever is past that, writes or waits, has been handed a reply and is in the table no more. -/
  served : s.hungUp = true → s.reader = .ended → ∀ n exchange id deadline purpose mailbox,
    s.At n (.working (.exchange exchange) deadline purpose) mailbox →
    exchangeId exchange = some id → (∀ request, exchange ≠ .registered request id) →
    (∃ reply, mailbox = some reply) ∧ s.pending.get? id = none
  /-- Whoever has not been handed a response does not come to any other result, in any run, than that
  the session is closed or that its own writing has failed. -/
  denied : s.hungUp = true → s.reader = .ended → ∀ n exchange deadline purpose,
    s.Asking n exchange deadline purpose → ∀ later e id result,
    (s.run later).happenings e = [.resolved n id result] →
    ∃ error, result = .error error ∧ Denied n e error
  /-- And in a fair run it does come to that result, unless its caller loses interest or its deadline
  passes. -/
  returns : s.hungUp = true → s.reader = .ended → ∀ n exchange deadline purpose,
    s.Asking n exchange deadline purpose → ∀ σ, Fair s σ → (∀ k, σ k ≠ .drop n) →
    ∃ k, (∃ id, (s.along σ k).Fails n id purpose (σ k) ∧
        ∀ id', exchangeId exchange = some id' → id = id') ∨
      ∃ d, deadline = some d ∧ d ≤ (s.along σ k).now
  /-- Even a request that has only been let in by then, and has yet to be registered, fails so. -/
  admitted : s.hungUp = true → s.reader = .ended → ∀ n method params,
    s.stageOf n = some (.admitted (.request method params)) → ∀ σ, Fair s σ →
    (∀ k, σ k ≠ .drop n) → ∃ k id, (s.along σ k).Fails n id .answer (σ k)
  /-- A request, a notification or a document event that begins on a running session after the mark is
  set, even before the pending requests are given up, finds the session closed. Nothing is queued or
  written for it, and the pending requests and the open documents stay as they are. -/
  late : s.hungUp = true → s.state = .running → ∀ n ask mailbox, s.At n (.fresh ask) mailbox →
    ask ≠ .opening → ask ≠ .stop → s.apply (.step (.call n)) =
      { s with calls := s.calls.set n ⟨.over (.failed .closed), mailbox⟩ }

/-- A hang-up strands nobody, after every run: however many requests there are, and however their
steps and those of the reader are interleaved. -/
theorem hang_up_strands_nobody (settings : SessionSettings) (filter : DocumentFilter)
    (label : String) (processId now : Nat) (events : List Event) :
    StrandsNobody ((start settings filter label processId now).run events) := by
  have hsound := (run_recorded settings filter label processId now events).sound
  have hlined := (lined_start settings filter label processId now).run events
  generalize (start settings filter label processId now).run events = s at hsound hlined ⊢
  have hsevered : s.hungUp = true → s.reader = .ended → Severed s :=
    fun hup hend => ⟨hsound, hlined, hup, hend⟩
  exact {
    entries := fun hup hend id n hp => (hsevered hup hend).entry hp
    served := fun hup hend n exchange id deadline purpose mailbox hc hid htest =>
      (hsevered hup hend).served hc hid htest
    denied := fun hup hend n exchange deadline purpose hask later e id result hr =>
      ((hsevered hup hend).forsaken_run hask.2 later).2.denied (apply_change _ e) hr
    returns := fun hup hend n exchange deadline purpose hask σ hfair hkeep =>
      (hsevered hup hend).returns hask hfair hkeep
    admitted := fun hup hend n method params hn σ hfair hkeep =>
      (hsevered hup hend).admitted_returns hn hfair hkeep
    late := fun hup hstate n ask mailbox hc hopen hstop =>
      apply_of_denied hc hopen hstop (by simp [welcome, hstate, hup]) }

/-- Whether a request has been given up by whoever was to answer it. -/
def Track.isGivenUp (t : Track) : Bool :=
  match t.reply with
  | some .abandoned => true
  | _ => false

theorem Registry.forsaken_of_isGivenUp {r : Registry} (h : (r.track n).all Track.isGivenUp = true) :
    r.Forsaken n := by
  intro t response ht hreply
  rw [ht, Option.all_some, Track.isGivenUp, hreply] at h
  cases h

end Session

def Stage.awaits (id : Nat) : Stage → Bool
  | .working (.exchange (.awaiting id')) none .answer => id' == id
  | _ => false

theorem Stage.eq_of_awaits {id : Nat} {stage : Stage} (h : stage.awaits id = true) :
    stage = .working (.exchange (.awaiting id)) none .answer := by
  unfold Stage.awaits at h
  split at h
  · rw [eq_of_beq h]
  · cases h

def Stage.isAdmittedFor (asked : String) : Stage → Bool
  | .admitted (.request method none) => method == asked
  | _ => false

theorem Stage.eq_of_isAdmittedFor {asked : String} {stage : Stage} (h : stage.isAdmittedFor asked = true) :
    stage = .admitted (.request asked none) := by
  unfold Stage.isAdmittedFor at h
  split at h
  · rw [eq_of_beq h]
  · cases h

namespace Session

/-- The server hangs up when one request waits for its reply and another has just been let in. -/
def hangUpAmidst : List Event :=
  handshake ++ [Event.call 1 (.request "textDocument/hover" none)] ++
    List.replicate 5 (.step (.call 1)) ++ writes 1 ++
    [Event.call 2 (.request "textDocument/definition" none), .step (.call 2),
      .endStream .closed, .step .reader, .step .reader, .step .reader]

/-- Both of them fail, whatever comes first, if everybody gets a turn. -/
theorem requests_are_not_stranded :
    let s := (start {} {} "custom" 0 0).run hangUpAmidst
    s.hungUp = true ∧ s.reader = .ended ∧ s.Asking 1 (.awaiting 2) none .answer ∧
      s.stageOf 2 = some (.admitted (.request "textDocument/definition" none)) ∧
      (∃ k, (s.along roundRobin k).Fails 1 2 .answer (roundRobin k)) ∧
      ∃ k id, (s.along roundRobin k).Fails 2 id .answer (roundRobin k) := by
  intro s
  obtain ⟨hup, hend, hwaits, hgivenUp, hletIn⟩ : s.hungUp = true ∧ s.reader = .ended ∧
      (s.stageOf 1).any (·.awaits 2) = true ∧ (s.track 1).all Track.isGivenUp = true ∧
      (s.stageOf 2).any (·.isAdmittedFor "textDocument/definition") = true := by
    decide +kernel
  have hnobody : StrandsNobody s := hang_up_strands_nobody {} {} "custom" 0 0 hangUpAmidst
  clear_value s
  have hone : s.Asking 1 (.awaiting 2) none .answer :=
    ⟨stageOf_of_any Stage.eq_of_awaits hwaits, Registry.forsaken_of_isGivenUp hgivenUp⟩
  have htwo := stageOf_of_any Stage.eq_of_isAdmittedFor hletIn
  refine ⟨hup, hend, hone, htwo, ?_, hnobody.admitted hup hend 2 _ _ htwo roundRobin
    (roundRobin_fair s) (roundRobin_ne_drop 2)⟩
  obtain ⟨k, ⟨id, hfails, hid⟩ | ⟨d, hd, -⟩⟩ := hnobody.returns hup hend 1 _ _ _ hone
    roundRobin (roundRobin_fair s) (roundRobin_ne_drop 1)
  · obtain rfl := hid 2 rfl
    exact ⟨k, hfails⟩
  · cases hd

end Session

end LanguageClient
