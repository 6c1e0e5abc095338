import LanguageClient.Proofs.Session.Dispatches
import LanguageClient.Proofs.Session.Refinement

/-!
# Every reply goes to its own request

However many requests a session has under way, and in whatever order they are registered, written,
given up and answered, a request is answered by the response that carries its number and by no other.
`Correlated` says what that means for a session and its record, and
`replies_reach_their_requests` that it holds after every run.

A response changes a session in one of two ways only: it is handed to the request that waits under
its number (`apply_of_solicited`), or it changes no call and no table (`apply_of_unsolicited`).

That is about requests. What a caller sees is the outcome of a call, and a call has stages before it
makes its request and, when it stops the session, after it. `Stage.report` is the result that a call
carries along once it has it, and `Reported` says that no call carries an answer that its own request
has not come to.
-/

namespace LanguageClient

/-- The result that an outcome tells of, if it tells of any. -/
def Outcome.report : Outcome → Option (Except SessionError Json)
  | .answered v => some (.ok v)
  | .failed e => some (.error e)
  | _ => none

/-- The result that work for this purpose will lead to if nothing goes wrong. -/
def Purpose.report : Purpose → Option (Except SessionError Json)
  | .message outcome => outcome.report
  | .leave result => (Outcome.ofStop result).report
  | _ => none

/-- The result that a call at this stage has come to and still has to report, or has reported. -/
def Stage.report : Stage → Option (Except SessionError Json)
  | .working _ _ purpose => purpose.report
  | .givingUp _ e => some (.error e)
  | .ending _ result => (Outcome.ofStop result).report
  | .over outcome => outcome.report
  | _ => none

theorem Outcome.report_ofResult (result : Except SessionError Json) :
    (Outcome.ofResult result).report = some result := by
  cases result <;> rfl

namespace Session

variable {s s' : Session} {e : Event} {n : Nat} {read : Except Rpc.MessageError Rpc.Message}
  {hs : List Happening}

/-! ## What the reader does with a response -/

theorem apply_of_readBy (h : s.readBy e = some read) :
    ∃ payload inbox, read = Rpc.Message.ofPayload payload ∧
      s.apply e = { s with inbox }.handle payload := by
  unfold readBy at h
  split at h
  · split at h
    · next payload inbox hread habort hrec =>
      refine ⟨payload, inbox, (Option.some.inj h).symm, ?_⟩
      simp [apply, step, readerStep, hread, habort, hrec]
    · cases h
  · cases h

theorem apply_of_response {response : Rpc.Response}
    (h : s.readBy e = some (.ok (.response response))) :
    ∃ inbox, s.apply e = { s with inbox }.complete response := by
  obtain ⟨payload, inbox, hread, happly⟩ := apply_of_readBy h
  refine ⟨inbox, ?_⟩
  rw [happly, handle, ← hread]

/-- The request that waits under the number of a response is handed the response. -/
theorem apply_of_solicited {response : Rpc.Response} {id : Nat} (hsound : Sound s.registry)
    (h : s.readBy e = some (.ok (.response response)))
    (hid : response.requestId = some (id : Int)) (hw : s.registry.Waiting n id) :
    ∃ inbox, s.apply e =
      Session.deliver { s with inbox, pending := s.pending.erase id } n (.answered response) := by
  obtain ⟨inbox, happly⟩ := apply_of_response h
  have hget : s.pending.get? id = some n := (hsound.waiting id n).mpr hw
  refine ⟨inbox, ?_⟩
  rw [happly, complete, hid]
  simp [hget]

theorem apply_of_unsolicited
    (hsound : Sound s.registry) (h : s.readBy e = some read)
    (hun : ∀ (response : Rpc.Response) (n id : Nat), read = .ok (.response response) →
      response.requestId = some (id : Int) → ¬ s.registry.Waiting n id) :
    (s.apply e).calls = s.calls ∧ (s.apply e).pending = s.pending := by
  obtain ⟨payload, inbox, rfl, happly⟩ := apply_of_readBy h
  rw [happly, handle]
  split
  · next response hread =>
    rw [complete]
    split
    · exact ⟨rfl, rfl⟩
    · next id hid =>
      split
      · next n hget =>
        split at hget
        · next hpos =>
          have hcast : response.requestId = some ((id.toNat : Nat) : Int) := by
            rw [hid, Int.toNat_of_nonneg hpos]
          exact absurd ((hsound.waiting id.toNat n).mp hget) (hun response n _ hread hcast)
        · cases hget
      · exact ⟨rfl, rfl⟩
  · exact ⟨rfl, rfl⟩
  · split <;> exact ⟨rfl, rfl⟩
  · exact ⟨rfl, rfl⟩

/-! ## What calls report

A call carries an answer from the event in which its request comes to it until it returns. Work of
other purposes ends in answers too, so it matters which purposes pass a result on. -/

variable {result found : Except SessionError Json}

theorem not_isAnswer_asHandshake (e : SessionError) : ¬ IsAnswer (.error e.asHandshake) := by
  cases e <;> exact id

/-- When work has come to a result, an answer that the call then reports is this result, or the call
has had it before. Only a request of the user can report a value. -/
theorem report_next {purpose : Purpose} {reads : Handshake.Decoder} {deadline : Option Nat}
    (hr : (purpose.next reads deadline found).report = some result) (ha : IsAnswer result) :
    purpose.report = some result ∨
      found = result ∧ (purpose = .answer ∨ ∃ e, found = .error e) := by
  cases purpose with
  | answer =>
    rw [Purpose.next, Stage.report, Outcome.report_ofResult] at hr
    exact .inr ⟨Option.some.inj hr, .inl rfl⟩
  | message outcome =>
    cases found with
    | ok v => exact .inl hr
    | error e => exact .inr ⟨Option.some.inj hr, .inr ⟨e, rfl⟩⟩
  | introduce =>
    cases found with
    | error e => exact (not_isAnswer_asHandshake e (Option.some.inj hr ▸ ha)).elim
    | ok v =>
      simp only [Purpose.next] at hr
      split at hr
      · exact (not_isAnswer_asHandshake _ (Option.some.inj hr ▸ ha)).elim
      · cases hr
  | confirm introduction =>
    cases found with
    | error e => exact (not_isAnswer_asHandshake e (Option.some.inj hr ▸ ha)).elim
    | ok v => cases hr
  | shutdown =>
    cases found with
    | error e => exact .inr ⟨Option.some.inj hr, .inr ⟨e, rfl⟩⟩
    | ok v => cases hr
  | leave outcome => exact .inl hr

namespace View

variable {h k h' : View} {out : List Dispatch}

/-- Work that comes to an answer is a request that has come to it, or a message that is written. -/
theorem Ends.answered {work : Work} {purpose : Purpose}
    (he : Ends h n work hs out k result purpose) (hg : work.Genuine h.greeting purpose)
    (ha : IsAnswer result) :
    (∃ id, hs = [.resolved n id result]) ∨ result = .ok .null ∧ ∃ notice, purpose.Tells notice := by
  cases he with
  | hungUp hup | gone id hhead hwriter => exact ha.elim
  | replied => exact .inl ⟨_, rfl⟩
  | written =>
    obtain ⟨notice, htells, -⟩ := hg
    exact .inr ⟨rfl, notice, htells⟩

theorem Moves.report {stage next : Stage} (hm : Moves h n stage hs out k next)
    (hg : stage.Genuine h.greeting) (ha : IsAnswer result) (hr : next.report = some result) :
    stage.report = some result ∨ ∃ id, hs = [.resolved n id result] := by
  cases hm with
  | rejects hask hdoor herror =>
    obtain rfl := Option.some.inj hr
    rcases herror with rfl | rfl <;> exact ha.elim
  | @tells ask notice outcome hnotice =>
    cases ask with
    | notify method params | document event =>
      obtain ⟨-, rfl⟩ := Prod.mk.inj (Option.some.inj hnotice)
      cases hr
    | _ => cases hnotice
  | works hw => exact .inl hr
  | @ends work hs out k found deadline purpose he =>
    rcases report_next hr ha with hsame | ⟨rfl, hpurpose⟩
    · exact .inl hsame
    · rcases he.answered hg ha with hresolved | ⟨rfl, notice, htells⟩
      · exact .inr hresolved
      · rcases hpurpose with rfl | ⟨e, heq⟩
        · exact htells.elim
        · cases heq
  | @expires work deadline opening closing purpose hb hlate =>
    cases purpose with
    | leave outcome => exact .inl hr
    | _ => exact (Option.some.inj hr ▸ ha : IsAnswer (.error (.timeout _ _))).elim
  | givesUp hs | closes hs | gaveUp | closed => exact .inl hr
  | _ => cases hr

/-- Call `m` stands elsewhere. Whoever carries a result has carried it before, or is `m`. -/
theorem report_put {m : Nat} {next : Option Stage} {stage : Stage} {P : Prop}
    (hn : (k.put m next).stage n = some stage) (hr : stage.report = some result)
    (hstage : k.stage = h.stage)
    (hself : n = m → next = some stage →
      (∃ before, h.stage n = some before ∧ before.report = some result) ∨ P) :
    (∃ before, h.stage n = some before ∧ before.report = some result) ∨ P := by
  rcases put_stage_eq_some.mp hn with ⟨heq, hnext⟩ | ⟨-, hn⟩
  · exact hself heq hnext
  · exact .inl ⟨stage, hstage ▸ hn, hr⟩

/-- A call comes to carry an answer only in the event in which its own request comes to it. -/
theorem Course.report {stage : Stage} (hcourse : h.Course e hs out h') (hg : h.Genuine)
    (hn : h'.stage n = some stage) (hr : stage.report = some result) (ha : IsAnswer result) :
    (∃ before, h.stage n = some before ∧ before.report = some result) ∨
      ∃ id, hs = [.resolved n id result] := by
  cases hcourse with
  | called hfree =>
    refine report_put hn hr rfl fun _ hnext => ?_
    obtain rfl := Option.some.inj hnext
    cases hr
  | dropped hm =>
    refine report_put hn hr rfl fun _ hnext => ?_
    cases hnext
  | moved hm hmoves =>
    refine report_put hn hr hmoves.around.stage ?_
    rintro rfl hnext
    obtain rfl := Option.some.inj hnext
    exact (hmoves.report (hg _ _ hm) ha hr).imp_left fun hsame => ⟨_, hm, hsame⟩
  | poured id hm =>
    refine report_put hn hr rfl ?_
    rintro rfl hnext
    obtain rfl := Option.some.inj hnext
    exact .inl ⟨_, hm, hr⟩
  | refused id hm =>
    refine report_put hn hr rfl ?_
    rintro rfl hnext
    obtain rfl := Option.some.inj hnext
    rcases report_next hr ha with hsame | ⟨rfl, -⟩
    · exact .inl ⟨_, hm, hsame⟩
    · exact ha.elim
  | _ => exact .inl ⟨stage, hn, hr⟩

/-- Every answer that a call of the view carries is one that its own request has come to. -/
def Reported (hs : List Happening) (h : View) : Prop :=
  ∀ n stage result, h.stage n = some stage → stage.report = some result → IsAnswer result →
    ∃ id, .resolved n id result ∈ hs

theorem Reported.step {past : List Happening} (hrep : h.Reported past) (hg : h.Genuine)
    (hcourse : h.Course e hs out h') : h'.Reported (past ++ hs) := by
  intro n stage result hn hr ha
  rcases hcourse.report hg hn hr ha with ⟨before, hbefore, hsame⟩ | ⟨id, rfl⟩
  · obtain ⟨id, hid⟩ := hrep n before result hbefore hsame ha
    exact ⟨id, List.mem_append_left _ hid⟩
  · exact ⟨id, List.mem_append_right _ (List.mem_singleton.mpr rfl)⟩

end View

theorem reported_run {past : List Happening} (hl : Lined s) (hg : s.view.Genuine)
    (hrep : s.view.Reported past) (events : List Event) :
    (s.run events).view.Genuine ∧ (s.run events).view.Reported (past ++ s.journal events) := by
  induction events generalizing s past with
  | nil =>
    rw [journal, List.append_nil]
    exact ⟨hg, hrep⟩
  | cons e events ih =>
    have hcourse := course hl e
    rw [journal, ← List.append_assoc]
    exact ih (hl.apply e) (hg.step hcourse).2.1 (hrep.step hg hcourse)

theorem reported_start (settings : SessionSettings) (filter : DocumentFilter) (label : String)
    (processId now : Nat) : (start settings filter label processId now).view.Reported [] := by
  intro n stage result hn hr ha
  obtain ⟨-, rfl⟩ := stageOf_start_eq_some hn
  cases hr

/-! ## Correlation -/

/-- What it means that every reply goes to its own request, for a session with record `hs`. -/
structure Correlated (s : Session) (hs : List Happening) : Prop where
  /-- No two requests have the same number, and no request comes to two results. -/
  once : (hs.filterMap Happening.registeredId).Nodup ∧ (hs.filterMap Happening.resolvedId).Nodup
  /-- A request that comes to a result was registered before. A value, or a failure of the server, is
  what the first response with its number since then says: an error wins over a result, and no result
  is `null`. -/
  own : ∀ before n id result after, hs = before ++ .resolved n id result :: after →
    ∃ pre post, before = pre ++ .registered n id :: post ∧
      (IsAnswer result → ∃ response, FirstReply id response post ∧
        result = match response.error with
          | some failure => .error (.serverError failure.code failure.message)
          | none => .ok (response.result.getD .null))
  /-- A response with the number of a request that still waits is handed to that request, which is
  struck off the table; nobody else gets anything. -/
  solicited : ∀ e response (n id : Nat), s.readBy e = some (.ok (.response response)) →
    response.requestId = some (id : Int) → s.registry.Waiting n id →
      (s.apply e).calls.get? n =
        (s.calls.get? n).map (fun c => { c with mailbox := some (.answered response) }) ∧
      (∀ m, m ≠ n → (s.apply e).calls.get? m = s.calls.get? m) ∧
      (s.apply e).pending = s.pending.erase id
  /-- Whatever else is read, every other response included, is handed to nobody and leaves the table
  as it is. -/
  unsolicited : ∀ e read, s.readBy e = some read →
    (∀ (response : Rpc.Response) (n id : Nat), read = .ok (.response response) →
      response.requestId = some (id : Int) → ¬ s.registry.Waiting n id) →
    (s.apply e).calls = s.calls ∧ (s.apply e).pending = s.pending
  /-- A reply that has been handed to a request stays with it as long as the request is under way. -/
  kept : ∀ n t reply later u, s.track n = some t → t.reply = some reply →
    (s.run later).track n = some u → u.id = t.id → u.reply = some reply
  /-- A request that has only to wait for its reply, and has it, comes to the result that the reply
  gives by its next step. -/
  prompt : ∀ n id deadline purpose reply,
    s.At n (.working (.exchange (.awaiting id)) deadline purpose) (some reply) →
    s.happenings (.step (.call n)) = [.resolved n id reply.result]
  /-- The call of a user's request is over exactly when the request has come to a result, and then
  that is its outcome. -/
  outcomes : ∀ e n exchange mailbox outcome,
    s.At n (.working (.exchange exchange) none .answer) mailbox →
    ((s.apply e).stageOf n = some (.over outcome) ↔
      ∃ id result, s.happenings e = [.resolved n id result] ∧ outcome = .ofResult result)
  /-- A request that has been let in goes on to its exchange, in which it takes a number first. -/
  asks : ∀ n method params, s.stageOf n = some (.admitted (.request method params)) →
    (s.apply (.step (.call n))).stageOf n =
      some (.working (.exchange (.fresh method params)) none .answer) ∧
    (s.apply (.step (.call n))).happenings (.step (.call n)) = [.registered n s.ids.next]
  /-- Whatever a call is about, it comes to carry a value, or a failure of the server, only in the
  event in which a request of its own comes to it. -/
  comes : ∀ e n stage result, (s.apply e).stageOf n = some stage → stage.report = some result →
    IsAnswer result →
    (∃ before, s.stageOf n = some before ∧ before.report = some result) ∨
      ∃ id, s.happenings e = [.resolved n id result]
  /-- So if that is the outcome of a call, a request of the call has come to it. -/
  reported : ∀ n result, s.stageOf n = some (.over (.ofResult result)) → IsAnswer result →
    ∃ id, .resolved n id result ∈ hs

theorem calls_deliver (s : Session) (n m : Nat) (reply : Reply) :
    (s.deliver n reply).calls.get? m =
      if m = n then (s.calls.get? n).map (fun c => { c with mailbox := some reply })
      else s.calls.get? m := by
  cases hc : s.calls.get? n with
  | none =>
    rw [deliver, hc]
    by_cases hm : m = n
    · rw [if_pos hm, hm, hc]
      rfl
    · rw [if_neg hm]
  | some c =>
    rw [deliver, hc]
    exact Table.get?_set ..

theorem Recorded.keeps_run {id : Nat} {reply : Reply} (h : Recorded hs s.registry)
    (hkeep : s.registry.Keeps n id reply) (later : List Event) :
    (s.run later).registry.Keeps n id reply := by
  induction later generalizing s hs with
  | nil => exact hkeep
  | cons e later ih =>
    have hshift := (apply_change s e).shift
    exact ih (h.shift hshift) (hkeep.shift h.sound hshift)

theorem asks_of_admitted {method : String} {params : Option Json}
    (hn : s.stageOf n = some (.admitted (.request method params))) :
    (s.apply (.step (.call n))).stageOf n =
      some (.working (.exchange (.fresh method params)) none .answer) ∧
    (s.apply (.step (.call n))).happenings (.step (.call n)) = [.registered n s.ids.next] := by
  obtain ⟨mailbox, hc⟩ := exists_at hn
  have hc' : (s.moveCall n (.working (.exchange (.fresh method params)) none .answer)).At n
      (.working (.exchange (.fresh method params)) none .answer) mailbox := by
    simp [At, moveCall, hc]
  rw [apply_of_admitted hn]
  refine ⟨stageOf_of_get? hc', ?_⟩
  obtain ⟨calls, heq⟩ := moveCall_eq s n (.working (.exchange (.fresh method params)) none .answer)
  rw [heq] at hc' ⊢
  simp [happenings, hc']

theorem Recorded.correlated (h : Recorded hs s.registry) (hl : Lined s) (hg : s.view.Genuine)
    (hrep : s.view.Reported hs) : Correlated s hs where
  once := ⟨h.registeredOnce, h.resolvedOnce⟩
  own before n id result after heq := h.warranted before _ after heq
  solicited e response n id hread hid hw := by
    obtain ⟨inbox, happly⟩ := apply_of_solicited h.sound hread hid hw
    rw [happly]
    refine ⟨?_, fun m hm => ?_, ?_⟩
    · rw [calls_deliver, if_pos rfl]
    · rw [calls_deliver, if_neg hm]
    · exact congrArg Registry.pending (registry_deliver ..)
  unsolicited e read hread hun := apply_of_unsolicited h.sound hread hun
  kept n t reply later u ht hreply hu hid := by
    have hkeep : s.registry.Keeps n t.id reply := by
      refine ⟨(h.sound.issued n t ht).2, fun t' ht' _ => ?_⟩
      obtain rfl : t = t' := Option.some.inj (ht.symm.trans ht')
      exact hreply
    exact (h.keeps_run hkeep later).2 u hu hid
  prompt n id deadline purpose reply hc := by
    rw [happenings_exchange hc rfl]
    rfl
  outcomes e n exchange mailbox outcome hc := (apply_change s e).over_iff hc
  asks n method params hn := asks_of_admitted hn
  comes e n stage result hn hr ha := (course hl e).report hg hn hr ha
  reported n result hn ha := hrep n _ result hn (Outcome.report_ofResult result) ha

/-- Every reply goes to its own request, after every run: whatever calls are made, in whatever order
their steps and those of the reader are taken, whatever the server sends, whichever writes fail,
whoever gives up and however the server's stream ends. -/
theorem replies_reach_their_requests (settings : SessionSettings) (filter : DocumentFilter)
    (label : String) (processId now : Nat) (events : List Event) :
    Correlated ((start settings filter label processId now).run events)
      ((start settings filter label processId now).journal events) := by
  have hl := lined_start settings filter label processId now
  obtain ⟨hg, hrep⟩ := reported_run hl (genuine_start settings filter label processId now)
    (reported_start settings filter label processId now) events
  exact (run_recorded settings filter label processId now events).correlated (hl.run events) hg hrep

end Session

def Stage.saysNumber (id : Nat) : Stage → Bool
  | .over (.answered (.num (.int v))) => v == id
  | _ => false

theorem Stage.eq_of_saysNumber {id : Nat} {stage : Stage} (h : stage.saysNumber id = true) :
    stage = .over (.answered (.num (.int id))) := by
  unfold Stage.saysNumber at h
  split at h
  · rw [eq_of_beq h]
  · cases h

namespace Session

/-- A reply whose result is the number of its request. -/
def numberedAnswer (id : Nat) : Rpc.Response :=
  { goodAnswer id with result := some (.num (.int id)) }

/-- Two requests are under way when the second is answered, then the first, and then the second once
more. After that their calls look for their replies. -/
def crossing : List Event :=
  handshake ++ [Event.call 1 (.request "textDocument/hover" none)] ++
    List.replicate 5 (.step (.call 1)) ++ writes 1 ++
    [Event.call 2 (.request "textDocument/definition" none)] ++
    List.replicate 5 (.step (.call 2)) ++ writes 2 ++
    [3, 2, 3].flatMap (fun id =>
      [Event.arrive (Frame.encode (numberedAnswer id).payload), .step .reader]) ++
    [Event.step (.call 1), .step (.call 2)]

/-- Either of them gets the reply to its own request. -/
theorem crossing_replies_reach_their_requests :
    let s := start {} {} "custom" 0 0
    (s.run crossing).stageOf 1 = some (.over (.answered (.num (.int 2)))) ∧
      (s.run crossing).stageOf 2 = some (.over (.answered (.num (.int 3)))) ∧
      (∃ id, .resolved 1 id (.ok (.num (.int 2))) ∈ s.journal crossing) ∧
      (∃ id, .resolved 2 id (.ok (.num (.int 3))) ∈ s.journal crossing) := by
  intro s
  have hcorrelated := replies_reach_their_requests {} {} "custom" 0 0 crossing
  obtain ⟨hfirst, hsecond⟩ : ((s.run crossing).stageOf 1).any (·.saysNumber 2) = true ∧
      ((s.run crossing).stageOf 2).any (·.saysNumber 3) = true := by
    decide +kernel
  have hone := stageOf_of_any Stage.eq_of_saysNumber hfirst
  have htwo := stageOf_of_any Stage.eq_of_saysNumber hsecond
  exact ⟨hone, htwo, hcorrelated.reported 1 (.ok (.num (.int 2))) hone trivial,
    hcorrelated.reported 2 (.ok (.num (.int 3))) htwo trivial⟩

end Session

end LanguageClient
