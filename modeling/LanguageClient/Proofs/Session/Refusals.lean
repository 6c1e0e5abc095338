import LanguageClient.Proofs.Session.Dispatches
import LanguageClient.Proofs.Session.Fairness
import LanguageClient.Proofs.Session.Intake

/-!
# Every request of the server is refused once

The reader refuses whatever the server asks for. A refusal is a task of its own: it is made when the
request is read, goes to the writer like everybody else, and is gone when its frame is on the wire
(`RefusalFate`). As long as the writer is there and the stream refuses none of them, refusals are
neither lost nor repeated: the frames that a run puts on the wire for refusals are one for each
request that has been read, but for those whose refusal is still under way (`Replying`). In a fair
run those come to their end too (`refusal_leads_to_reply`).
-/

namespace LanguageClient

def Rpc.requestIn (payload : List UInt8) : Option Rpc.ServerRequest :=
  match Rpc.Message.ofPayload payload with
  | .ok (.serverRequest request) => some request
  | _ => none

/-- How many places a refusal has left behind. -/
def RefusalStage.rank : RefusalStage → Nat
  | .fresh _ => 0
  | .sending (.fresh _) => 1
  | .sending (.queued _) => 2
  | .sending (.writing _ _) => 3

def RefusalStage.Answers (request : Rpc.ServerRequest) : RefusalStage → Prop
  | .fresh request' => request' = request
  | .sending send => send.payload = (Session.refusalOf request).payload

theorem RefusalStage.rank_le (stage : RefusalStage) : stage.rank ≤ 3 := by
  cases stage with
  | fresh request => simp [rank]
  | sending send => cases send <;> simp [rank]

theorem RefusalStage.isSome_errand (stage : RefusalStage) :
    stage.errand.isSome = decide (2 ≤ stage.rank) := by
  cases stage with
  | fresh request => rfl
  | sending send => cases send <;> rfl

namespace Session

variable {s s' : Session} {e : Event} {k : Nat} {request : Rpc.ServerRequest}

/-! ## What the reader takes off the stream -/

/-- The payload that the reader takes off the stream if event `e` happens. -/
def takenBy (s : Session) : Event → Option (List UInt8)
  | .step .reader =>
    match s.reader, s.readerAborted, Frame.receive s.inbox with
    | .reading, false, (.payload payload, _) => some payload
    | _, _, _ => none
  | _ => none

def taken (s : Session) : List Event → List (List UInt8)
  | [] => []
  | e :: events => (s.takenBy e).toList ++ (s.apply e).taken events

variable {payload : List UInt8} {stage : RefusalStage}

theorem apply_of_taken (h : s.takenBy e = some payload) :
    ∃ inbox, e = .step .reader ∧ s.reader = .reading ∧ s.readerAborted = false ∧
      Frame.receive s.inbox = (.payload payload, inbox) ∧
      s.apply e = (s.withInbox inbox).handle payload := by
  unfold takenBy at h
  split at h
  · split at h
    · next payload' inbox hread habort hrec =>
      obtain rfl := Option.some.inj h
      refine ⟨inbox, rfl, hread, habort, hrec, ?_⟩
      simp [apply, step, readerStep, hread, habort, hrec, withInbox]
    · cases h
  · cases h

theorem takenBy_reading {inbox : Frame.Stream} (hread : s.reader = .reading)
    (habort : s.readerAborted = false) (hrec : Frame.receive s.inbox = (.payload payload, inbox)) :
    s.takenBy (.step .reader) = some payload := by
  simp [takenBy, hread, habort, hrec]

/-- What happens inside a session changes nothing but the octets to be read, unless a payload is taken
off the stream. -/
theorem intake_of_untaken (h : s.takenBy e = none) (hinner : e.isInner = true) :
    ∃ inbox, (s.apply e).intake = { s.intake with inbox } := by
  by_cases he : e = .step .reader ∧ s.reader = .reading
  · obtain ⟨rfl, hread⟩ := he
    cases habort : s.readerAborted with
    | true => exact ⟨s.inbox, by simp [apply, step, readerStep, hread, habort, intake]⟩
    | false =>
      cases hrec : Frame.receive s.inbox with
      | mk received inbox =>
        cases received with
        | waiting => exact ⟨s.inbox, by simp [apply, step, readerStep, hread, habort, hrec, intake]⟩
        | payload payload =>
          rw [takenBy_reading hread habort hrec] at h
          cases h
        | failure error =>
          refine ⟨inbox, ?_⟩
          cases error <;> simp [apply, step, readerStep, hread, habort, hrec, note, intake]
  · exact ⟨s.inbox, intake_apply s hinner fun h hread => he ⟨h, hread⟩⟩

theorem nextRefusal_of_untaken (h : s.takenBy e = none) :
    (s.apply e).nextRefusal = s.nextRefusal := by
  cases hinner : e.isInner with
  | true =>
    obtain ⟨inbox, hsame⟩ := intake_of_untaken h hinner
    exact congrArg Intake.nextRefusal hsame
  | false =>
    cases e with
    | arrive bytes | endStream ending | takeNotices | fetchNotices =>
      simp only [apply]; split <;> rfl
    | discardNotices => rfl
    | _ => cases hinner

theorem refusals_of_untaken (h : s.takenBy e = none)
    (hk : s.refusals.get? k = none ∨ e.isOf (.refusal k) = false) :
    (s.apply e).refusals.get? k = s.refusals.get? k := by
  cases (apply_change s e).refusals with
  | kept hnext hsame => exact hsame k hk
  | added request hnext hset =>
    rw [nextRefusal_of_untaken h] at hnext
    omega

theorem handle_request (h : Rpc.requestIn payload = some request) (s : Session) :
    s.handle payload = { s with
      refusals := s.refusals.set s.nextRefusal (.fresh request)
      nextRefusal := s.nextRefusal + 1 } := by
  unfold Rpc.requestIn at h
  split at h
  · next hread =>
    obtain rfl := Option.some.inj h
    rw [handle, hread]
  · cases h

theorem handle_no_request (h : Rpc.requestIn payload = none) (s : Session) :
    SameRefusals s (s.handle payload) := by
  unfold handle
  split
  · next response _ =>
    obtain ⟨calls, pending, log, heq⟩ := complete_eq s response
    rw [heq]
    exact ⟨rfl, rfl⟩
  · next request hread =>
    rw [Rpc.requestIn, hread] at h
    cases h
  · split <;> exact ⟨rfl, rfl⟩
  · exact ⟨rfl, rfl⟩

/-! ## The fate of a refusal

By one event a refusal gets on, is written, or is lost. It is lost only without a writer or by a
stream that refuses it. -/

inductive RefusalFate (s : Session) (k : Nat) (stage : RefusalStage) (e : Event) : Prop where
  | remains (next : RefusalStage) (hnext : (s.apply e).refusals.get? k = some next)
      (hrank : stage.rank ≤ next.rank)
      (hmoves : e = .step (.refusal k) → stage.rank < 2 → stage.rank < next.rank)
      (hsame : ∀ request, stage.Answers request → next.Answers request)
      (hwhole : stage.posted k = [] ∨ e ≠ .step (.refusal k)) : RefusalFate s k stage e
  | written {payload : List UInt8} (he : e = .step (.refusal k))
      (hstage : stage = .sending (.writing payload []))
      (hgone : (s.apply e).refusals.get? k = none) : RefusalFate s k stage e
  | lost (hcause : s.writer = false ∨ ∃ cause, e = .refuse (.refusal k) cause)
      (hgone : (s.apply e).refusals.get? k = none) : RefusalFate s k stage e

theorem RefusalFate.stays (hnext : (s.apply e).refusals.get? k = some stage)
    (he : e ≠ .step (.refusal k)) :
    RefusalFate s k stage e :=
  .remains _ hnext (Nat.le_refl _) (fun h => absurd h he) (fun _ => id) (.inr he)

theorem fate_of_sending {send : Sending} (hk : s.refusals.get? k = some (.sending send)) :
    RefusalFate s k (.sending send) (.step (.refusal k)) := by
  have happly : s.apply (.step (.refusal k)) = (s.refusalStep k).getD s := rfl
  have hsends := sendStep_sends s (.refusal k) send
  simp only [refusalStep, hk] at happly
  have hset : ∀ {next : Sending} {refusals : Table RefusalStage},
      (refusals.set k (.sending next)).get? k = some (.sending next) := Table.get?_set_self ..
  cases send with
  | fresh payload =>
    refine .remains (.sending (.queued payload)) ?_ (by simp [RefusalStage.rank])
      (fun _ _ => by simp [RefusalStage.rank]) (fun _ => id) (.inl rfl)
    rw [happly]
    exact hset
  | queued payload =>
    generalize s.sendStep (.refusal k) (.queued payload) = progress at happly hsends
    cases hsends with
    | waits hwait =>
      refine .remains (.sending (.queued payload)) ?_ (Nat.le_refl _)
        (fun _ hrank => by simp [RefusalStage.rank] at hrank) (fun _ => id) (.inl rfl)
      rw [happly]
      exact hk
    | takes hhead hwriter =>
      refine .remains (.sending (.writing payload (Frame.encode payload))) ?_
        (by simp [RefusalStage.rank]) (fun _ _ => by simp [RefusalStage.rank]) (fun _ => id)
        (.inl rfl)
      rw [happly]
      exact hset
    | closed hhead hwriter =>
      refine .lost (.inl hwriter) ?_
      rw [happly]
      exact Table.get?_erase_self ..
  | writing payload rest =>
    cases rest with
    | nil =>
      refine .written rfl rfl ?_
      rw [happly]
      exact Table.get?_erase_self ..
    | cons b rest =>
      refine .remains (.sending (.writing payload (b :: rest))) ?_ (Nat.le_refl _)
        (fun _ hrank => by simp [RefusalStage.rank] at hrank) (fun _ => id) (.inl rfl)
      rw [happly]
      exact hk

theorem fate_of_accept (hk : s.refusals.get? k = some stage) (count : Nat) :
    RefusalFate s k stage (.accept (.refusal k) count) := by
  have hne : Event.accept (.refusal k) count ≠ .step (.refusal k) := Event.noConfusion
  cases hsend : s.sendingOf (.refusal k) with
  | none => exact .stays (by rw [apply, accept, hsend, hk]) hne
  | some send =>
    obtain rfl := Option.some.inj (hk.symm.trans (sendingOf_refusal hsend))
    cases send with
    | fresh payload | queued payload => exact .stays (by rw [apply, accept, hsend, hk]) hne
    | writing payload rest =>
      refine .remains (.sending (.writing payload (rest.drop count))) ?_ (Nat.le_refl _)
        (fun h => absurd h hne) (fun _ => id) (.inr hne)
      rw [apply, accept, hsend]
      exact Table.get?_set_self ..

theorem fate_of_refuse (hk : s.refusals.get? k = some stage) (cause : IoError) :
    RefusalFate s k stage (.refuse (.refusal k) cause) := by
  have hne : Event.refuse (.refusal k) cause ≠ .step (.refusal k) := Event.noConfusion
  cases hsend : s.sendingOf (.refusal k) with
  | none => exact .stays (by rw [apply, refuse, hsend, hk]) hne
  | some send =>
    cases send with
    | fresh payload | queued payload => exact .stays (by rw [apply, refuse, hsend, hk]) hne
    | writing payload rest =>
      refine .lost (.inr ⟨cause, rfl⟩) ?_
      rw [apply, refuse, hsend]
      exact Table.get?_erase_self ..

theorem fate_of_other (hl : Lined s) (hk : s.refusals.get? k = some stage)
    (hof : e.isOf (.refusal k) = false) : RefusalFate s k stage e := by
  have hne : e ≠ .step (.refusal k) := by
    rintro rfl
    simp [Event.isOf] at hof
  refine .stays ?_ hne
  cases (apply_change s e).refusals with
  | kept hnext hsame => rw [hsame k (.inr hof), hk]
  | added request hnext hset =>
    have hold : k ≠ s.nextRefusal := by
      rintro rfl
      rw [hl.numbered _ (Nat.le_refl _)] at hk
      cases hk
    rw [hset, Table.get?_set, if_neg hold, hk]

theorem refusal_fate (hl : Lined s) (hk : s.refusals.get? k = some stage) (e : Event) :
    RefusalFate s k stage e := by
  cases hof : e.isOf (.refusal k) with
  | false => exact fate_of_other hl hk hof
  | true =>
    cases e with
    | step t =>
      obtain rfl : Task.refusal k = t := eq_of_beq hof
      cases stage with
      | fresh request =>
        refine .remains (.sending (.fresh (refusalOf request).payload)) ?_
          (by simp [RefusalStage.rank]) (fun _ _ => by simp [RefusalStage.rank]) ?_ (.inl rfl)
        · simp only [apply, step, refusalStep, hk, Option.getD_some]
          exact Table.get?_set_self ..
        · rintro request' rfl
          rfl
      | sending send => exact fate_of_sending hk
    | accept t count =>
      obtain rfl : Task.refusal k = t := eq_of_beq hof
      exact fate_of_accept hk count
    | refuse t cause =>
      obtain rfl : Task.refusal k = t := eq_of_beq hof
      exact fate_of_refuse hk cause
    | call n ask => simp [Event.isOf] at hof
    | drop n => simp [Event.isOf] at hof
    | _ => cases hof

/-! ## Replies -/

def Dispatch.refusal (d : Dispatch) : Option Nat :=
  match d.task with
  | .refusal k => some k
  | _ => none

theorem posted_replies (s : Session) (e : Event) :
    (s.posted e).filterMap Dispatch.refusal = [] ∨
      ∃ k payload, e = .step (.refusal k) ∧ s.posted e = [⟨.refusal k, none, none, payload⟩] ∧
        s.refusals.get? k = some (.sending (.writing payload [])) := by
  unfold posted
  split
  · next n =>
    left
    cases s.stageOf n with
    | none => rfl
    | some stage =>
      simp only [Option.elim, Stage.posted]
      split <;> rfl
  · next k =>
    cases hk : s.refusals.get? k with
    | none => exact .inl rfl
    | some stage =>
      simp only [Option.elim, RefusalStage.posted]
      split
      · next payload => exact .inr ⟨k, payload, rfl, rfl, hk⟩
      · exact .inl rfl
  · exact .inl rfl

theorem View.Course.writer_gone {h h' : View} {hs : List Happening} {out : List Dispatch}
    (hcourse : h.Course e hs out h') (hwriter : h.writer = false) : h'.writer = false := by
  cases hcourse with
  | moved hn hm => exact hm.around.writer.elim (·.trans hwriter) id
  | _ => exact hwriter

theorem writer_of_apply (hl : Lined s) (h : (s.apply e).writer = true) : s.writer = true := by
  cases hwriter : s.writer with
  | true => rfl
  | false =>
    have hgone : (s.apply e).writer = false := (course hl e).writer_gone hwriter
    rw [h] at hgone
    cases hgone

/-- The frames `out` are on the wire for the requests `asked`: refusal `k` is about the one at place
`k`. -/
structure Replying (s : Session) (asked : List Rpc.ServerRequest) (out : List Dispatch) : Prop where
  count : s.nextRefusal = asked.length
  underway : ∀ k stage, s.refusals.get? k = some stage →
    ∃ request, asked[k]? = some request ∧ stage.Answers request
  answered : ∀ d ∈ out, ∀ k, d.refusal = some k → s.refusals.get? k = none ∧
    ∃ request, asked[k]? = some request ∧ d.payload = (refusalOf request).payload
  once : (out.filterMap Dispatch.refusal).Nodup
  spared : s.writer = true → ∀ k, k < asked.length →
    (s.refusals.get? k).isSome = true ∨ k ∈ out.filterMap Dispatch.refusal

variable {asked : List Rpc.ServerRequest} {out : List Dispatch}

/-- A refusal whose frame is put on the wire was under way until then, and is gone now. -/
theorem refusals_of_written (hl : Lined s)
    (hk : s.refusals.get? k = some (.sending (.writing payload []))) :
    (s.apply (.step (.refusal k))).refusals.get? k = none := by
  cases refusal_fate hl hk (.step (.refusal k)) with
  | remains next hnext hrank hmoves hsame hwhole =>
    exact hwhole.elim nofun fun hne => absurd rfl hne
  | written he hstage hgone | lost hcause hgone => exact hgone

theorem Replying.underway_untaken (h : Replying s asked out) (hl : Lined s)
    (htaken : s.takenBy e = none) (hk : (s.apply e).refusals.get? k = some stage) :
    ∃ request, asked[k]? = some request ∧ stage.Answers request := by
  cases hbefore : s.refusals.get? k with
  | none =>
    rw [refusals_of_untaken htaken (.inl hbefore), hbefore] at hk
    cases hk
  | some before =>
    obtain ⟨request, hasked, hanswers⟩ := h.underway k before hbefore
    refine ⟨request, hasked, ?_⟩
    cases refusal_fate hl hbefore e with
    | remains next hnext hrank hmoves hsame hwhole =>
      obtain rfl := Option.some.inj (hnext.symm.trans hk)
      exact hsame request hanswers
    | written he hstage hgone | lost hcause hgone =>
      rw [hgone] at hk
      cases hk

theorem Replying.once_posted (h : Replying s asked out) (e : Event) :
    ((out ++ s.posted e).filterMap Dispatch.refusal).Nodup := by
  rw [List.filterMap_append]
  rcases posted_replies s e with hnothing | ⟨k, payload, he, hposts, hk⟩
  · rw [hnothing, List.append_nil]
    exact h.once
  · rw [hposts]
    refine List.nodup_append.mpr ⟨h.once, by simp [Dispatch.refusal], fun a ha b hb => ?_⟩
    obtain ⟨d, hd, hdk⟩ := List.mem_filterMap.mp ha
    obtain rfl : b = k := by simpa [Dispatch.refusal] using hb
    rintro rfl
    rw [(h.answered d hd a hdk).1] at hk
    cases hk

/-- As long as there is a writer, a refusal is under way until its frame is on the wire. -/
theorem Replying.spared_apply (h : Replying s asked out) (hl : Lined s)
    (hstream : ∀ k cause, e ≠ .refuse (.refusal k) cause) (hwriter : (s.apply e).writer = true)
    (hlt : k < asked.length) :
    ((s.apply e).refusals.get? k).isSome = true ∨
      k ∈ (out ++ s.posted e).filterMap Dispatch.refusal := by
  rw [List.filterMap_append, List.mem_append]
  have hbefore := writer_of_apply hl hwriter
  rcases h.spared hbefore k hlt with hk | hk
  · obtain ⟨stage, hk⟩ := Option.isSome_iff_exists.mp hk
    cases refusal_fate hl hk e with
    | remains next hnext hrank hmoves hsame hwhole => exact .inl (by rw [hnext]; rfl)
    | @written payload he hstage hgone =>
      refine .inr (.inr ?_)
      have hposts : s.posted e = [⟨.refusal k, none, none, payload⟩] := by
        rw [he, posted_refusal hk, hstage]
        rfl
      simp [hposts, Dispatch.refusal]
    | lost hcause hgone =>
      rcases hcause with hcause | ⟨cause, he⟩
      · rw [hbefore] at hcause
        cases hcause
      · exact absurd he (hstream k cause)
  · exact .inr (.inl hk)

theorem Replying.untaken (h : Replying s asked out) (hl : Lined s) (htaken : s.takenBy e = none)
    (hstream : ∀ k cause, e ≠ .refuse (.refusal k) cause) :
    Replying (s.apply e) asked (out ++ s.posted e) := by
  refine ⟨(nextRefusal_of_untaken htaken).trans h.count,
    fun k stage hk => h.underway_untaken hl htaken hk, fun d hd k hdk => ?_, h.once_posted e,
    fun hwriter k hlt => h.spared_apply hl hstream hwriter hlt⟩
  rcases List.mem_append.mp hd with hd | hd
  · obtain ⟨hgone, hrequest⟩ := h.answered d hd k hdk
    exact ⟨(refusals_of_untaken htaken (.inl hgone)).trans hgone, hrequest⟩
  · rcases posted_replies s e with hnothing | ⟨k', payload, rfl, hposts, hk'⟩
    · have hmem : k ∈ (s.posted e).filterMap Dispatch.refusal :=
        List.mem_filterMap.mpr ⟨d, hd, hdk⟩
      rw [hnothing] at hmem
      cases hmem
    · rw [hposts] at hd
      obtain rfl := List.mem_singleton.mp hd
      obtain rfl : k' = k := Option.some.inj hdk
      exact ⟨refusals_of_written hl hk', h.underway k' _ hk'⟩

theorem Replying.handle (h : Replying s asked out) (hl : Lined s) (payload : List UInt8) :
    Replying (s.handle payload) (asked ++ (Rpc.requestIn payload).toList) out := by
  cases hrequest : Rpc.requestIn payload with
  | none =>
    obtain ⟨hrefusals, hnext⟩ := handle_no_request hrequest s
    have hwriter : (s.handle payload).writer = s.writer :=
      congrArg View.writer (view_handle s payload)
    simp only [Option.toList_none, List.append_nil]
    exact ⟨hnext.trans h.count, hrefusals ▸ h.underway, hrefusals ▸ h.answered, h.once,
      hwriter ▸ hrefusals ▸ h.spared⟩
  | some request =>
    have hnew : s.refusals.get? s.nextRefusal = none := hl.numbered _ (Nat.le_refl _)
    have hold : ∀ {k : Nat} {r : Rpc.ServerRequest}, asked[k]? = some r →
        (asked ++ [request])[k]? = some r := by
      intro k r hk
      obtain ⟨hlt, -⟩ := List.getElem?_eq_some_iff.mp hk
      rw [List.getElem?_append_left hlt, hk]
    rw [handle_request hrequest]
    simp only [Option.toList_some]
    refine ⟨by simp [h.count], fun k stage hk => ?_, fun d hd k hdk => ?_, h.once,
      fun hwriter k hlt => ?_⟩
    · rw [Table.get?_set] at hk
      split at hk
      · next heq =>
        obtain rfl := Option.some.inj hk
        refine ⟨request, ?_, rfl⟩
        rw [heq, h.count, List.getElem?_append_right (Nat.le_refl _), Nat.sub_self]
        rfl
      · obtain ⟨r, hr, hanswers⟩ := h.underway k stage hk
        exact ⟨r, hold hr, hanswers⟩
    · obtain ⟨hgone, r, hr, hpayload⟩ := h.answered d hd k hdk
      obtain ⟨hlt, -⟩ := List.getElem?_eq_some_iff.mp hr
      refine ⟨?_, r, hold hr, hpayload⟩
      rw [Table.get?_set, if_neg (by rw [h.count]; omega), hgone]
    · rw [Table.get?_set]
      rw [List.length_append, List.length_singleton] at hlt
      split
      · exact .inl rfl
      · next hne =>
        rw [h.count] at hne
        exact h.spared hwriter k (by omega)

theorem Replying.apply (h : Replying s asked out) (hl : Lined s)
    (hstream : ∀ k cause, e ≠ .refuse (.refusal k) cause) :
    Replying (s.apply e) (asked ++ (s.takenBy e).toList.filterMap Rpc.requestIn)
      (out ++ s.posted e) := by
  cases htaken : s.takenBy e with
  | none =>
    rw [Option.toList_none, List.filterMap_nil, List.append_nil]
    exact h.untaken hl htaken hstream
  | some payload =>
    obtain ⟨inbox, rfl, -, -, -, happly⟩ := apply_of_taken htaken
    have hsame : Replying (s.withInbox inbox) asked out :=
      ⟨h.count, h.underway, h.answered, h.once, h.spared⟩
    have hlined : Lined (s.withInbox inbox) := ⟨hl.numbered, hl.distinct, hl.queued⟩
    have hout : s.posted (.step .reader) = [] := rfl
    have hasked : (some payload).toList.filterMap Rpc.requestIn = (Rpc.requestIn payload).toList := by
      cases hrequest : Rpc.requestIn payload <;> simp [hrequest]
    rw [happly, hout, List.append_nil, hasked]
    exact hsame.handle hlined payload

/-- What has been asked, and what has been put on the wire, in the course of a run. -/
theorem Replying.run {events : List Event} (h : Replying s asked out) (hl : Lined s)
    (hstream : ∀ k cause, .refuse (.refusal k) cause ∉ events) :
    Replying (s.run events) (asked ++ (s.taken events).filterMap Rpc.requestIn)
      (out ++ s.dispatches events) := by
  induction events generalizing s asked out with
  | nil =>
    rw [taken, dispatches, List.filterMap_nil, List.append_nil, List.append_nil]
    exact h
  | cons e events ih =>
    have hhead : ∀ k cause, e ≠ .refuse (.refusal k) cause :=
      fun k cause he => hstream k cause (he ▸ List.mem_cons_self)
    have hrest := ih (h.apply hl hhead) (hl.apply e)
      fun k cause hmem => hstream k cause (List.mem_cons_of_mem e hmem)
    rw [taken, dispatches, List.filterMap_append, ← List.append_assoc, ← List.append_assoc]
    exact hrest

/-! ## Refusals come to their end -/

/-- What whoever stands in the queue for the writer needs: what the first in line needs. -/
def turnNeed (s : Session) (t : Task) : Need := (s.queue.head?.map s.needAt).getD (.step t)

/-- Whoever stands in the queue for the writer gets nearer to it, unless what the first in line needs
stays the same and does not come. -/
theorem ahead_approaches {t : Task} (hl : Lined s) (hin : (s.errand t).isSome = true)
    (hin' : ((s.apply e).errand t).isSome = true) :
    (s.apply e).ahead t < s.ahead t ∨ (s.apply e).ahead t = s.ahead t ∧
      (s.apply e).turnNeed t = s.turnNeed t ∧ ¬ (s.turnNeed t).Met s e := by
  have hturn := (apply_change s e).turn hl.numbered
  obtain ⟨a, hhead, hlt | ⟨heq, hhead', ha⟩⟩ :=
    hturn.ahead hl ((hl.queued t).mpr hin) (((hl.apply e).queued t).mpr hin')
  · exact .inl hlt
  · refine .inr ⟨heq, by simp [turnNeed, hhead, hhead', needAt_congr ha], fun hmet => ?_⟩
    have hneed : s.turnNeed t = s.needAt a := by simp [turnNeed, hhead]
    exact progress hl hhead (hneed ▸ hmet) ha

def refusalRank (s : Session) (k : Nat) : Nat := (s.refusals.get? k).elim 0 RefusalStage.rank

/-- How much is to happen until refusal `k` is on the wire: the places it has yet to go through, and
then, in the queue for the writer, what has to be done there. -/
def refusalDistance (s : Session) (k : Nat) : Nat × Nat :=
  (3 - s.refusalRank k, if 2 ≤ s.refusalRank k then s.ahead (.refusal k) else 0)

/-- What refusal `k` needs: in the queue what the first in line needs, and a step of its own
otherwise. -/
def refusalNeed (s : Session) (k : Nat) : Need :=
  if 2 ≤ s.refusalRank k then s.turnNeed (.refusal k) else .step (.refusal k)

theorem refusalRank_eq (hk : s.refusals.get? k = some stage) :
    s.refusalRank k = stage.rank := by
  rw [refusalRank, hk]
  rfl

/-- As long as a refusal is under way it comes closer to the wire with every event, unless what it
needs stays the same and does not come. -/
theorem refusal_approaches {next : RefusalStage} (hl : Lined s)
    (hk : s.refusals.get? k = some stage) (hk' : (s.apply e).refusals.get? k = some next)
    (hrank : stage.rank ≤ next.rank)
    (hmoves : e = .step (.refusal k) → stage.rank < 2 → stage.rank < next.rank) :
    Prod.Lex (· < ·) (· < ·) ((s.apply e).refusalDistance k) (s.refusalDistance k) ∨
      (s.apply e).refusalDistance k = s.refusalDistance k ∧
        (s.apply e).refusalNeed k = s.refusalNeed k ∧ ¬ (s.refusalNeed k).Met s e := by
  rw [refusalDistance, refusalDistance, refusalNeed, refusalNeed, refusalRank_eq hk,
    refusalRank_eq hk']
  rcases Nat.lt_or_eq_of_le hrank with hlt | heq
  · have hle := next.rank_le
    exact .inl (.left _ _ (by omega))
  · rw [← heq]
    by_cases hin : 2 ≤ stage.rank
    · have hline : (s.errand (.refusal k)).isSome = true := by
        rw [errand_refusal hk, stage.isSome_errand, decide_eq_true hin]
      have hline' : ((s.apply e).errand (.refusal k)).isSome = true := by
        rw [errand_refusal hk', next.isSome_errand, decide_eq_true (heq ▸ hin)]
      simp only [if_pos hin]
      rcases ahead_approaches hl hline hline' with hlt | ⟨hsame, hneed, hunmet⟩
      · exact .inl (.right _ hlt)
      · exact .inr ⟨by rw [hsame], hneed, hunmet⟩
    · simp only [if_neg hin, true_and]
      refine .inr fun hmet => ?_
      exact absurd heq (Nat.ne_of_lt (hmoves hmet (Nat.lt_of_not_le hin)))

/-- In a fair run every refusal is put on the wire, as long as the writer is there and the stream does
not refuse it. -/
theorem refusal_leads_to_reply {σ : Nat → Event} (hl : Lined s)
    (hk : s.refusals.get? k = some stage) (hanswers : stage.Answers request) (hfair : Fair s σ)
    (hwriter : ∀ j, (s.along σ j).writer = true)
    (hstream : ∀ j cause, σ j ≠ .refuse (.refusal k) cause) :
    ∃ j, (s.along σ j).posted (σ j) = [⟨.refusal k, none, none, (refusalOf request).payload⟩] := by
  refine (Fair.leads_to (A := fun s e => s.writer = true ∧ ∀ cause, e ≠ .refuse (.refusal k) cause)
    (P := fun s => Lined s ∧ ∃ stage, s.refusals.get? k = some stage ∧ stage.Answers request)
    (Q := fun s e => s.posted e = [⟨.refusal k, none, none, (refusalOf request).payload⟩])
    (Nat.lt_wfRel.wf.prod_lex Nat.lt_wfRel.wf) (refusalDistance · k) (refusalNeed · k) ?_ hfair
    (fun j => ⟨hwriter j, hstream j⟩) ⟨hl, stage, hk, hanswers⟩).imp fun j hj => hj.2
  rintro s e ⟨hwriter, hne⟩ ⟨hl, stage, hk, hanswers⟩
  cases refusal_fate hl hk e with
  | remains next hnext hrank hmoves hsame hwhole =>
    exact .inr ⟨⟨hl.apply e, next, hnext, hsame request hanswers⟩,
      refusal_approaches hl hk hnext hrank hmoves⟩
  | @written payload he hstage hgone =>
    subst hstage
    obtain rfl : payload = (refusalOf request).payload := hanswers
    refine .inl ?_
    rw [he, posted_refusal hk]
    rfl
  | lost hcause hgone =>
    rcases hcause with hgone | ⟨cause, he⟩
    · exact absurd (hwriter.symm.trans hgone) nofun
    · exact absurd he (hne cause)

end Session

end LanguageClient
