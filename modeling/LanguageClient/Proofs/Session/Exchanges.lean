import LanguageClient.Proofs.Session.Bystanders

/-!
# The fate of an exchange

A call that exchanges a request for a reply goes through the places of `Exchange` in their order. One
event leaves the exchange where it is or takes it further, brings it to a result, finds that its
deadline has passed, or ends it because the caller has lost interest. `Fate` lists these and
`Change.fate` says that there is nothing else, whatever the rest of the session is doing. How it
comes to a result is said by `Change.resolved_by`.
-/

namespace LanguageClient

def Outcome.ofResult : Except SessionError Json → Outcome
  | .ok v => .answered v
  | .error e => .failed e

def Exchange.rank : Exchange → Nat
  | .fresh _ _ => 0
  | .registered _ _ => 1
  | .sending _ (.fresh _) => 2
  | .sending _ (.queued _) => 3
  | .sending _ (.writing _ _) => 4
  | .awaiting _ => 5

namespace Session

/-- How a request fails for want of a server: by a step of its call, which finds that nobody will
answer, or because the stream refuses what the call is writing. -/
inductive Denied (n : Nat) : Event → SessionError → Prop where
  | closed : Denied n (.step (.call n)) .closed
  | unwritten (cause : IoError) : Denied n (.refuse (.call n) cause) (.transport (.io cause))

/-- What an event can mean to the exchange of call `n`. -/
inductive Fate (s : Session) (n : Nat) (exchange : Exchange) (deadline : Option Nat)
    (purpose : Purpose) : Event → List Happening → Session → Prop where
  | remains {e : Event} {hs : List Happening} {s' : Session} {next : Exchange}
      (hst : s'.stageOf n = some (.working (.exchange next) deadline purpose))
      (hrank : exchange.rank ≤ next.rank)
      (hid : ∀ id, exchangeId exchange = some id → exchangeId next = some id)
      (hno : ∀ id result, hs ≠ [.resolved n id result]) :
      Fate s n exchange deadline purpose e hs s'
  | resolved {e : Event} {mid : Session} {id : Nat} {result : Except SessionError Json}
      (hid : exchangeId exchange = some id) (hmid : mid.stageOf n = s.stageOf n) :
      Fate s n exchange deadline purpose e [.resolved n id result]
        (mid.finishWork n deadline purpose result)
  | expired {e : Event} {s' : Session} {d : Nat} (hd : deadline = some d) (hnow : d ≤ s.now) :
      Fate s n exchange deadline purpose e [] s'
  | dropped {s' : Session} (hgone : s'.stageOf n = none) :
      Fate s n exchange deadline purpose (.drop n) [] s'

variable {s s' : Session} {e : Event} {n : Nat} {hs : List Happening}
  {result : Except SessionError Json}

/-- A request comes to a result because it fails or because its call has been handed a reply. -/
theorem Change.resolved_by {id : Nat} (h : Change s e hs s') (hr : hs = [.resolved n id result]) :
    (∃ error, result = .error error ∧ Denied n e error) ∨
      e = .step (.call n) ∧ ∃ reply, result = reply.result ∧ ∃ deadline purpose,
        s.At n (.working (.exchange (.awaiting id)) deadline purpose) (some reply) := by
  cases h with
  | foundHungUp hc hup =>
    obtain ⟨rfl, rfl, rfl⟩ := Happening.resolved.inj (List.cons.inj hr).1
    exact .inl ⟨_, rfl, .closed⟩
  | unsent hc hs =>
    obtain ⟨rfl, rfl, rfl⟩ := Happening.resolved.inj (List.cons.inj hr).1
    cases hs
    exact .inl ⟨_, rfl, .closed⟩
  | replied hc =>
    obtain ⟨rfl, rfl, rfl⟩ := Happening.resolved.inj (List.cons.inj hr).1
    exact .inr ⟨rfl, _, rfl, _, _, hc⟩
  | exchangeRefused hc =>
    obtain ⟨rfl, rfl, rfl⟩ := Happening.resolved.inj (List.cons.inj hr).1
    exact .inl ⟨_, rfl, .unwritten _⟩
  | registered => cases (List.cons.inj hr).1
  | @read payload inbox =>
    unfold heardIn at hr
    split at hr
    · cases (List.cons.inj hr).1
    · cases hr
  | _ => cases hr

theorem Change.isOf_of_resolved {id : Nat} (h : Change s e hs s')
    (hr : hs = [.resolved n id result]) : e.isOf (.call n) = true := by
  rcases h.resolved_by hr with ⟨error, -, hdenied⟩ | ⟨rfl, -⟩
  · cases hdenied <;> exact beq_self_eq_true _
  · exact beq_self_eq_true _

theorem Sends.rank_le {t : Task} {sending next : Sending} {mid : Session} (id : Nat)
    (h : Sends s t sending (.going mid next)) :
    (Exchange.sending id sending).rank ≤ (Exchange.sending id next).rank := by
  cases h <;> simp [Exchange.rank]

theorem Exchange.rank_sending_le (id : Nat) (sending : Sending) :
    (Exchange.sending id sending).rank ≤ (Exchange.awaiting id).rank := by
  cases sending <;> simp [Exchange.rank]

theorem Change.fate {exchange : Exchange} {deadline : Option Nat} {purpose : Purpose}
    {mailbox : Option Reply} (h : Change s e hs s')
    (hc : s.At n (.working (.exchange exchange) deadline purpose) mailbox) :
    Fate s n exchange deadline purpose e hs s' := by
  have hstage := stageOf_of_get? hc
  cases he : e.isOf (.call n) with
  | false =>
    refine .remains ((h.stageOf he).trans hstage) (Nat.le_refl _) (fun _ => id) ?_
    intro id result hr
    rw [h.isOf_of_resolved hr] at he
    cases he
  | true =>
    have hof : ∀ {k : Nat}, (Task.call n == Task.call k) = true → n = k :=
      fun h => Task.call.inj (eq_of_beq h)
    cases h with
    | idle | outside hnow => exact .remains hstage (Nat.le_refl _) (fun _ => id) nofun
    | registered hc' =>
      obtain rfl := hof he
      cases hc.symm.trans hc'
      exact .remains ((stageOf_setCall s n n _).trans (if_pos rfl)) (Nat.zero_le _) nofun nofun
    | tested hc' hup =>
      obtain rfl := hof he
      cases hc.symm.trans hc'
      exact .remains (stageOf_moved hstage) (by simp [Exchange.rank]) (fun _ => id) nofun
    | sends hc' hs =>
      obtain rfl := hof he
      cases hc.symm.trans hc'
      exact .remains (stageOf_moved ((stageOf_congr hs.calls_going n).trans hstage))
        (hs.rank_le _) (fun _ => id) nofun
    | sent hc' hs =>
      obtain rfl := hof he
      cases hc.symm.trans hc'
      exact .remains (stageOf_moved ((stageOf_congr hs.calls_finished n).trans hstage))
        (Exchange.rank_sending_le ..) (fun _ => id) nofun
    | foundHungUp hc' hup | replied hc' | exchangeRefused hc' =>
      obtain rfl := hof he
      cases hc.symm.trans hc'
      exact .resolved rfl rfl
    | unsent hc' hs =>
      obtain rfl := hof he
      cases hc.symm.trans hc'
      exact .resolved rfl (stageOf_congr hs.calls_finished n)
    | expired hc' hb hd =>
      obtain rfl := hof he
      cases hc.symm.trans hc'
      exact .expired rfl hd
    | taken hc' hs =>
      obtain rfl := hof he
      obtain ⟨_, _, _, ⟨_, hs⟩ | hs⟩ := sendingOf_call hs
      · cases hc.symm.trans hs
        cases hc.symm.trans hc'
        exact .remains (stageOf_moved hstage) (Nat.le_refl _) (fun _ => id) nofun
      · cases hc.symm.trans hs
    | workDropped hc' =>
      obtain rfl := hof he
      exact .dropped ((stageOf_eraseCall s n n).trans (if_pos rfl))
    | closingDropped hc' hst =>
      obtain rfl := hof he
      cases hc.symm.trans hc'
      cases hst
    | dropped hc' hw hst =>
      obtain rfl := hof he
      cases hc.symm.trans hc'
      cases hw
    | called hc' | opened hc' | proceeded hc' | looked hc' | leaves hc' | ends hc'
    | messageSends hc' | messageSent hc' | messageRefused hc'
    | givesUp hc' | gaveUp hc' | stops hc' | stopped hc' =>
      obtain rfl := hof he
      cases hc.symm.trans hc'
    | _ => cases he

/-! ## From the door to the outcome

The exchange of a user's request begins when its call has been let in, and nothing else stands
between the two; and its result is the outcome of the call. -/

theorem apply_of_admitted {method : String} {params : Option Json}
    (hn : s.stageOf n = some (.admitted (.request method params))) :
    s.apply (.step (.call n)) =
      s.moveCall n (.working (.exchange (.fresh method params)) none .answer) := by
  obtain ⟨mailbox, hc⟩ := exists_at hn
  simp [apply, step, callStep, hc, proceed, startExchange]

theorem stageOf_answer {mid : Session} {stage : Stage} {deadline : Option Nat}
    (result : Except SessionError Json) (h : mid.stageOf n = some stage) :
    (mid.finishWork n deadline .answer result).stageOf n = some (.over (.ofResult result)) := by
  cases result <;> exact (stageOf_moveCall ..).trans (by rw [if_pos rfl, h]; rfl)

/-- The call of a user's request is over exactly when its request has come to a result, and the
result is its outcome. -/
theorem Change.over_iff {exchange : Exchange} {mailbox : Option Reply} {outcome : Outcome}
    (h : Change s e hs s') (hc : s.At n (.working (.exchange exchange) none .answer) mailbox) :
    s'.stageOf n = some (.over outcome) ↔
      ∃ id result, hs = [.resolved n id result] ∧ outcome = .ofResult result := by
  cases h.fate hc with
  | remains hst _ _ hno =>
    rw [hst]
    refine ⟨nofun, ?_⟩
    rintro ⟨id, result, heq, -⟩
    exact absurd heq (hno id result)
  | @resolved _ _ id result _ hmid =>
    rw [stageOf_answer result (hmid.trans (stageOf_of_get? hc)), Option.some.injEq,
      Stage.over.injEq]
    constructor
    · rintro rfl
      exact ⟨id, result, rfl, rfl⟩
    · rintro ⟨id', result', heq, rfl⟩
      obtain ⟨-, -, rfl⟩ := Happening.resolved.inj (List.cons.inj heq).1
      rfl
  | expired hd => cases hd
  | dropped hgone =>
    rw [hgone]
    exact ⟨nofun, nofun⟩

/-! ## Exchanges of a run

Runs on given inputs are put together from pieces like these. What has become of a call is looked up
by a test of its stage, since stages cannot be compared. -/

/-- What a server answers that likes everything. -/
def goodAnswer (id : Nat) : Rpc.Response :=
  { jsonrpc := Rpc.version
    id := some (.num (.int id))
    result := some (.obj [("capabilities", .obj [])])
    error := none }

/-- Call `n`, which waits for the writer, takes it and writes its frame. -/
def writes (n : Nat) : List Event :=
  [.step (.call n), .accept (.call n) 1000000, .step (.call n)]

/-- The server answers request `id`, and call `n` takes note of it. -/
def hears (n id : Nat) : List Event :=
  [.arrive (Frame.encode (goodAnswer id).payload), .step .reader, .step (.call n)]

/-- The exchange with which a session begins, up to the message that ends the handshake. -/
def handshake : List Event :=
  List.replicate 4 (.step (.call 0)) ++ writes 0 ++ hears 0 1 ++ [.step (.call 0)] ++ writes 0

theorem stageOf_of_any {stage : Stage} {test : Stage → Bool}
    (htest : ∀ {stage'}, test stage' = true → stage' = stage) (h : (s.stageOf n).any test = true) :
    s.stageOf n = some stage := by
  cases hn : s.stageOf n with
  | none =>
    rw [hn] at h
    cases h
  | some stage' =>
    rw [hn] at h
    rw [htest h]

end Session

end LanguageClient
