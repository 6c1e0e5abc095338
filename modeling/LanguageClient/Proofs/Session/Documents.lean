import LanguageClient.Proofs.Document.Routing
import LanguageClient.Proofs.Session.Stop

/-!
# What the document calls of a session come to

The open documents of a session are touched at one place: the second step of a document call offers
the event to the filter, and what is decided there is kept whatever becomes of the call afterwards
(`Change.documents`). `Consulting` follows a document call from its beginning, with what has become of
the open documents and of the frames about documents since, and `Consulting.run` says that nothing
else can come of it as long as no second document call is made.
-/

namespace LanguageClient

def Ask.isDocument : Ask → Bool
  | .document _ => true
  | _ => false

def Purpose.isDocument : Purpose → Bool
  | .message (.routed _) => true
  | _ => false

/-- Whether a call at this stage may still have something to do with a document. -/
def Stage.isDocument : Stage → Bool
  | .fresh ask | .admitted ask => ask.isDocument
  | .working _ _ purpose => purpose.isDocument
  | _ => false

def Stage.isAdmitted : Stage → Bool
  | .admitted _ => true
  | _ => false

theorem Stage.Follows.isDocument {purpose : Purpose} {stage : Stage}
    (h : Stage.Follows purpose stage) : stage.isDocument = false := by
  cases h <;> rfl

theorem Work.carrying_eq_send {id : Option Nat} {sending sending' : Sending}
    (h : Work.carrying id sending = .send sending') : id = none ∧ sending = sending' := by
  cases id with
  | none => exact ⟨rfl, Work.send.inj h⟩
  | some id => cases h

def DocumentEvent.notice (event : DocumentEvent) : Rpc.Notification :=
  .make event.method (some event.params)

namespace Session

def Event.isDocument : Event → Bool
  | .call _ ask => ask.isDocument
  | _ => false

def Dispatch.isDocument (d : Dispatch) : Bool := d.purpose.any Purpose.isDocument

/-! ## Nobody else has to do with documents -/

namespace View

variable {P : Nat → Prop} {h k h' : View} {n : Nat}

/-- Of certain calls none has anything to do with a document. -/
def Apart (h : View) (P : Nat → Prop) : Prop :=
  ∀ m stage, P m → h.stage m = some stage → stage.isDocument = false

theorem Apart.put (ha : h.Apart P) (hstage : k.stage = h.stage) {next : Option Stage}
    (hnext : P n → ∀ stage, next = some stage → stage.isDocument = false) :
    (k.put n next).Apart P := by
  intro m stage hP hm
  rcases put_stage_eq_some.mp hm with ⟨rfl, heq⟩ | ⟨-, hm⟩
  · exact hnext hP stage heq
  · exact ha m stage hP (hstage ▸ hm)

theorem Moves.isDocument {stage next : Stage} {hs : List Happening} {out : List Dispatch}
    (hm : Moves h n stage hs out k next) (hstage : stage.isDocument = false) :
    next.isDocument = false := by
  cases hm with
  | admits hask hstate hup => exact hstage
  | @tells ask notice outcome hnotice =>
    cases ask with
    | notify method params =>
      obtain ⟨-, rfl⟩ := Prod.mk.inj (Option.some.inj hnotice)
      rfl
    | document event => cases hstage
    | _ => cases hnotice
  | works hw => exact hstage
  | ends he => exact (Purpose.follows_next ..).isDocument
  | expires hblocked hlate => exact (Purpose.follows_late ..).isDocument
  | _ => rfl

theorem Apart.step {e : Event} {hs : List Happening} {out : List Dispatch} (ha : h.Apart P)
    (hcourse : h.Course e hs out h') (he : e.isDocument = false) : h'.Apart P := by
  cases hcourse with
  | called hn => exact ha.put rfl fun _ stage heq => Option.some.inj heq ▸ he
  | dropped hn => exact ha.put rfl fun _ stage heq => by cases heq
  | moved hn hm =>
    exact ha.put hm.around.stage fun hP stage heq =>
      Option.some.inj heq ▸ hm.isDocument (ha _ _ hP hn)
  | poured id hn =>
    have hpurpose := fun hP => ha _ _ hP hn
    exact ha.put rfl fun hP stage heq => Option.some.inj heq ▸ hpurpose hP
  | refused id hn =>
    exact ha.put rfl fun _ stage heq => Option.some.inj heq ▸ (Purpose.follows_next ..).isDocument
  | _ => exact ha

end View

variable {s s' mid : Session} {n : Nat} {e : Event}

theorem posted_of_isDocument {d : Dispatch} (hd : d ∈ s.posted e) (hdoc : d.isDocument = true) :
    ∃ n stage, e = .step (.call n) ∧ s.stageOf n = some stage ∧ stage.isDocument = true ∧
      stage.posted n ≠ [] := by
  unfold posted at hd
  split at hd
  · next n =>
    cases hn : s.stageOf n with
    | none =>
      rw [hn] at hd
      cases hd
    | some stage =>
      rw [hn] at hd
      refine ⟨n, stage, rfl, hn, ?_, List.ne_nil_of_mem hd⟩
      change d ∈ stage.posted n at hd
      unfold Stage.posted at hd
      split at hd
      · obtain rfl := List.mem_singleton.mp hd
        exact hdoc
      · obtain rfl := List.mem_singleton.mp hd
        exact hdoc
      · cases hd
  · next n =>
    cases hn : s.refusals.get? n with
    | none =>
      rw [hn] at hd
      cases hd
    | some stage =>
      rw [hn] at hd
      change d ∈ stage.posted n at hd
      unfold RefusalStage.posted at hd
      split at hd
      · obtain rfl := List.mem_singleton.mp hd
        cases hdoc
      · cases hd
  · cases hd

/-! ## Where the open documents change

They change when the event is offered, which is before its frame is sent: a send that fails does not
take the change back. -/

/-- `s'` has the filter and the open documents of `s`. -/
def SameDocuments (s s' : Session) : Prop :=
  s'.filter = s.filter ∧ s'.documents = s.documents

theorem documents_moveCall (s : Session) (n : Nat) (stage : Stage) :
    (s.moveCall n stage).documents = s.documents :=
  congrArg Fixtures.documents (fixtures_moveCall s n stage)

/-- The filter stays, and the open documents change only when a document call that was let in offers
its event. -/
theorem Change.documents {hs : List Happening} (h : Change s e hs s') :
    SameDocuments s s' ∨ s'.filter = s.filter ∧ ∃ n event, e = .step (.call n) ∧
      s.stageOf n = some (.admitted (.document event)) := by
  cases h.refit with
  | offered documents he hn hsame =>
    exact .inr ⟨congrArg Fixtures.filter hsame, _, _, he, hn⟩
  | kept hsame | disarmed n hnext hsame | shut hclosed hsame | refused he hr hother hsame
  | added request hsame =>
    exact .inl ⟨congrArg Fixtures.filter hsame, congrArg Fixtures.documents hsame⟩

/-! ## A document call from beginning to end -/

def documentFrames (s : Session) (events : List Event) : List Dispatch :=
  (s.dispatches events).filter (·.isDocument)

def letsIn (s : Session) (n : Nat) : List Event → Bool
  | [] => false
  | e :: events => ((s.apply e).stageOf n).any Stage.isAdmitted || (s.apply e).letsIn n events

def report (n : Nat) (event : DocumentEvent) : Dispatch :=
  ⟨.call n, some (.message (.routed .forwarded)), none, event.notice.payload⟩

def Event.refuses (n : Nat) : Event → Bool
  | .refuse (.call m) _ => m == n
  | _ => false

/-- Nothing stands in the way of call `n`: the session runs, the server has not hung up, the writer is
there, and the stream does not refuse what the call writes. -/
structure Clear (n : Nat) (s : Session) (e : Event) : Prop where
  running : s.state = .running
  present : s.hungUp = false
  writer : s.writer = true
  taken : e.refuses n = false

instance (n : Nat) (s : Session) (e : Event) : Decidable (Clear n s e) :=
  decidable_of_iff
    (s.state = .running ∧ s.hungUp = false ∧ s.writer = true ∧ e.refuses n = false)
    ⟨fun ⟨h₁, h₂, h₃, h₄⟩ => ⟨h₁, h₂, h₃, h₄⟩, fun h => ⟨h.1, h.2, h.3, h.4⟩⟩

/-- How far call `n`, which is about `event`, has come since the open documents were `before`:
whether it has been let in, where it stands, what documents are open by now, and what frames about
documents have been put on the wire. It can only have failed if there was `trouble`. -/
inductive Consulting (trouble : Prop) (n : Nat) (filter : DocumentFilter) (event : DocumentEvent)
    (before : OpenDocuments) : Bool → Stage → OpenDocuments → List Dispatch → Prop where
  | waits : Consulting trouble n filter event before false (.fresh (.document event)) before []
  | rejected {error : SessionError} (htrouble : trouble) :
      Consulting trouble n filter event before false (.over (.failed error)) before []
  | admitted : Consulting trouble n filter event before true (.admitted (.document event)) before []
  | ignored (hrouted : (before.offer filter event).1 = .ignored) :
      Consulting trouble n filter event before true (.over (.routed .ignored)) before []
  | sends {sending : Sending} (hrouted : (before.offer filter event).1 = .forwarded)
      (hpayload : sending.payload = event.notice.payload) :
      Consulting trouble n filter event before true
        (.working (.send sending) none (.message (.routed .forwarded)))
        (before.offer filter event).2 []
  | forwarded (hrouted : (before.offer filter event).1 = .forwarded) :
      Consulting trouble n filter event before true (.over (.routed .forwarded))
        (before.offer filter event).2 [report n event]
  | failed {error : SessionError} (hrouted : (before.offer filter event).1 = .forwarded)
      (htrouble : trouble) :
      Consulting trouble n filter event before true (.over (.failed error))
        (before.offer filter event).2 []

section Consulting

variable {trouble : Prop} {filter : DocumentFilter} {event : DocumentEvent} {before : OpenDocuments}
  {letIn : Bool} {stage : Stage} {frames : List Dispatch} {events : List Event}

/-- A document call in whose way nothing stood has returned what was decided, and has told the server
exactly if the event was to be forwarded. -/
theorem Consulting.of_clear {outcome : Outcome} {documents : OpenDocuments}
    (h : Consulting False n filter event before letIn (.over outcome) documents frames) :
    outcome = .routed (before.offer filter event).1 ∧ documents = (before.offer filter event).2 ∧
      frames = if (before.offer filter event).1 = .forwarded then [report n event] else [] := by
  cases h with
  | rejected htrouble => exact htrouble.elim
  | ignored hrouted =>
    rw [hrouted]
    exact ⟨rfl, (OpenDocuments.offer_of_ignored hrouted).symm, rfl⟩
  | forwarded hrouted =>
    rw [hrouted]
    exact ⟨rfl, rfl, rfl⟩
  | failed hrouted htrouble => exact htrouble.elim

/-- A document call that has failed was turned away, or has offered its event all the same. -/
theorem Consulting.of_failed {error : SessionError} {documents : OpenDocuments}
    (h : Consulting trouble n filter event before letIn (.over (.failed error)) documents frames) :
    letIn = false ∧ documents = before ∨ letIn = true ∧
      (before.offer filter event).1 = .forwarded ∧ documents = (before.offer filter event).2 := by
  cases h with
  | rejected htrouble => exact .inl ⟨rfl, rfl⟩
  | failed hrouted htrouble => exact .inr ⟨rfl, hrouted, rfl⟩

theorem no_frame (ha : s.view.Apart (· ≠ n)) (hn : s.stageOf n = some stage)
    (hquiet : e = .step (.call n) → stage.posted n = []) :
    (s.posted e).filter (·.isDocument) = [] := by
  rw [List.filter_eq_nil_iff]
  intro d hd hdoc
  obtain ⟨m, stage', rfl, hm, hdoc', hposted⟩ := posted_of_isDocument hd hdoc
  by_cases hne : m = n
  · subst hne
    obtain rfl := Option.some.inj (hn.symm.trans hm)
    exact hposted (hquiet rfl)
  · rw [ha m stage' hne hm] at hdoc'
    cases hdoc'

theorem same_documents (ha : s.view.Apart (· ≠ n)) (hn : s.stageOf n = some stage)
    (hquiet : e = .step (.call n) → stage.isAdmitted = false) :
    (s.apply e).documents = s.documents := by
  rcases (apply_change s e).documents with hsame | ⟨-, m, event, rfl, hm⟩
  · exact hsame.2
  · by_cases hne : m = n
    · subst hne
      obtain rfl := Option.some.inj (hn.symm.trans hm)
      cases hquiet rfl
    · cases ha m _ hne hm

theorem filter_apply (s : Session) (e : Event) : (s.apply e).filter = s.filter := by
  rcases (apply_change s e).documents with hsame | ⟨hfilter, -⟩
  · exact hsame.1
  · exact hfilter

namespace View

variable {h h' : View} {hs : List Happening} {out : List Dispatch}

/-- A document call at the door: it is let in, or turned away if there is trouble. -/
theorem Course.knocks (hcourse : h.Course e hs out h')
    (hn : h.stage n = some (.fresh (.document event))) (hdrop : e ≠ .drop n)
    (hclear : h.state = .running ∧ h.hungUp = false ∨ trouble) :
    ∃ next, h'.stage n = some next ∧
      Consulting trouble n filter event before (false || next.isAdmitted) next before [] := by
  cases hcourse.lot hn hdrop with
  | stays hstage hnone => exact ⟨_, hstage, .waits⟩
  | moves hm =>
    refine ⟨_, put_stage_self .., ?_⟩
    cases hm with
    | admits hask hstate hup => exact .admitted
    | rejects hask hdoor herror =>
      refine .rejected (hclear.resolve_left fun hopen => ?_)
      cases hopen.2.symm.trans (hdoor hopen.1)
  | pours id heq => cases heq
  | refuses id heq => cases heq

theorem Course.admitted_stays {ask : Ask} (hcourse : h.Course e hs out h')
    (hn : h.stage n = some (.admitted ask)) (he : e ≠ .step (.call n)) (hdrop : e ≠ .drop n) :
    h'.stage n = some (.admitted ask) := by
  cases hcourse.lot hn hdrop with
  | stays hstage hnone => exact hstage
  | moves hm => exact absurd rfl he
  | pours id heq => cases heq
  | refuses id heq => cases heq

/-- A document call whose frame is not written yet: it goes on writing, or fails if there is
trouble. -/
theorem Course.writes {sending : Sending} (hcourse : h.Course e hs out h')
    (hrouted : (before.offer filter event).1 = .forwarded)
    (hpayload : sending.payload = event.notice.payload)
    (hn : h.stage n = some (.working (.send sending) none (.message (.routed .forwarded))))
    (hdrop : e ≠ .drop n) (hrest : e = .step (.call n) → ∀ payload, sending ≠ .writing payload [])
    (hclear : h.writer = true ∧ e.refuses n = false ∨ trouble) :
    ∃ next, h'.stage n = some next ∧
      Consulting trouble n filter event before (true || next.isAdmitted) next
        (before.offer filter event).2 [] := by
  cases hcourse.lot hn hdrop with
  | stays hstage hnone => exact ⟨_, hstage, .sends hrouted hpayload⟩
  | moves hm =>
    refine ⟨_, put_stage_self .., ?_⟩
    cases hm with
    | works hw =>
      generalize hwork : Work.send sending = work at hw
      cases hw with
      | joins | takes hhead hwriter =>
        obtain ⟨rfl, rfl⟩ := Work.carrying_eq_send hwork.symm
        exact .sends hrouted hpayload
      | written => cases (Work.carrying_eq_send hwork.symm).1
      | _ => cases hwork
    | ends he =>
      generalize hwork : Work.send sending = work at he
      cases he with
      | gone id hhead hwriter =>
        refine .failed hrouted (hclear.resolve_left fun hopen => ?_)
        cases hopen.1.symm.trans hwriter
      | @written payload purpose =>
        exact absurd (Work.send.inj hwork) (hrest rfl payload)
      | _ => cases hwork
  | pours id heq =>
    refine ⟨_, put_stage_self .., ?_⟩
    injection heq with hwork hdeadline hpurpose
    obtain ⟨rfl, rfl⟩ := Work.carrying_eq_send hwork.symm
    subst hdeadline hpurpose
    exact .sends hrouted hpayload
  | refuses id heq =>
    refine ⟨_, put_stage_self .., ?_⟩
    injection heq with hwork hdeadline hpurpose
    subst hpurpose
    refine .failed hrouted (hclear.resolve_left fun hopen => ?_)
    rw [Event.refuses, beq_self_eq_true] at hopen
    cases hopen.2

end View

theorem Consulting.offers (ha : s.view.Apart (· ≠ n))
    (hn : s.stageOf n = some (.admitted (.document event))) :
    ∃ next, (s.apply (.step (.call n))).stageOf n = some next ∧
      Consulting trouble n s.filter event s.documents true next
        (s.apply (.step (.call n))).documents
        ((s.posted (.step (.call n))).filter (·.isDocument)) := by
  obtain ⟨mailbox, hc⟩ := exists_at hn
  have happly : s.apply (.step (.call n)) = s.proceed n (.document event) := by
    simp [apply, step, callStep, hc]
  rw [happly, no_frame ha hn fun _ => rfl]
  cases ho : s.documents.offer s.filter event with
  | mk routed documents =>
    have hrouted : (s.documents.offer s.filter event).1 = routed := by rw [ho]
    have hdocuments : (s.documents.offer s.filter event).2 = documents := by rw [ho]
    cases routed with
    | forwarded =>
      have hproceed : s.proceed n (.document event) = Session.startMessage { s with documents } n
          event.method (some event.params) none (.message (.routed .forwarded)) := by
        rw [proceed, ho]
      rw [hproceed, startMessage, documents_moveCall]
      exact ⟨_, stageOf_moved (by exact hn), hdocuments ▸ .sends hrouted rfl⟩
    | ignored =>
      have hproceed : s.proceed n (.document event) =
          Session.finishCall { s with documents } n (.routed .ignored) := by
        rw [proceed, ho]
      have hsame : documents = s.documents :=
        hdocuments.symm.trans (OpenDocuments.offer_of_ignored hrouted)
      subst hsame
      rw [hproceed, finishCall, documents_moveCall]
      exact ⟨_, stageOf_moved (by exact hn), .ignored hrouted⟩

theorem stageOf_reported {payload : List UInt8}
    (hn : s.stageOf n = some (.working (.send (.writing payload [])) none
      (.message (.routed .forwarded)))) :
    (s.apply (.step (.call n))).stageOf n = some (.over (.routed .forwarded)) := by
  obtain ⟨mailbox, hc⟩ := exists_at hn
  rw [apply_of_finished hc rfl]
  exact stageOf_moved hn

theorem Consulting.apply
    (h : Consulting trouble n s.filter event before letIn stage s.documents frames) (hl : Lined s)
    (ha : s.view.Apart (· ≠ n)) (hn : s.stageOf n = some stage) (hdrop : e ≠ .drop n)
    (hclear : Clear n s e ∨ trouble) :
    ∃ next, (s.apply e).stageOf n = some next ∧
      Consulting trouble n s.filter event before (letIn || next.isAdmitted) next
        (s.apply e).documents (frames ++ (s.posted e).filter (·.isDocument)) := by
  have hsame := same_documents (e := e) ha hn
  have hquiet := no_frame (e := e) ha hn
  have hover : ∀ {outcome : Outcome}, s.stageOf n = some (.over outcome) →
      (s.apply e).stageOf n = some (.over outcome) := fun ho => (course hl e).over_stays ho hdrop
  generalize hdocuments : s.documents = documents at h hsame
  cases h with
  | waits =>
    rw [hsame fun _ => rfl, hquiet fun _ => rfl]
    exact (course hl e).knocks hn hdrop (hclear.imp_left fun hc => ⟨hc.running, hc.present⟩)
  | admitted =>
    subst hdocuments
    by_cases he : e = .step (.call n)
    · subst he
      exact Consulting.offers ha hn
    · rw [hsame fun heq => absurd heq he, hquiet fun heq => absurd heq he]
      exact ⟨_, (course hl e).admitted_stays hn he hdrop, .admitted⟩
  | @sends sending hrouted hpayload =>
    rw [hsame fun _ => rfl]
    by_cases hdone : e = .step (.call n) ∧ ∃ payload, sending = .writing payload []
    · obtain ⟨rfl, payload, rfl⟩ := hdone
      obtain rfl : payload = event.notice.payload := hpayload
      have hposted : s.posted (.step (.call n)) = [report n event] := by
        rw [posted, hn]
        rfl
      rw [hposted]
      exact ⟨_, stageOf_reported hn, .forwarded hrouted⟩
    · have hrest : e = .step (.call n) → ∀ payload, sending ≠ .writing payload [] :=
        fun he payload heq => hdone ⟨he, payload, heq⟩
      have hnothing : e = .step (.call n) → (Stage.working (.send sending) none
          (.message (.routed .forwarded))).posted n = [] := fun he => by
        unfold Stage.posted
        split
        · next heq => cases heq
        · next heq =>
          cases heq
          exact absurd rfl (hrest he _)
        · rfl
      rw [hquiet hnothing]
      exact (course hl e).writes hrouted hpayload hn hdrop hrest
        (hclear.imp_left fun hc => ⟨hc.writer, hc.taken⟩)
  | rejected htrouble =>
    rw [hsame fun _ => rfl, hquiet fun _ => rfl]
    exact ⟨_, hover hn, .rejected htrouble⟩
  | ignored hrouted =>
    rw [hsame fun _ => rfl, hquiet fun _ => rfl]
    exact ⟨_, hover hn, .ignored hrouted⟩
  | forwarded hrouted =>
    rw [hsame fun _ => rfl, hquiet fun _ => rfl]
    exact ⟨_, hover hn, .forwarded hrouted⟩
  | failed hrouted htrouble =>
    rw [hsame fun _ => rfl, hquiet fun _ => rfl]
    exact ⟨_, hover hn, .failed hrouted htrouble⟩

theorem Consulting.run
    (h : Consulting trouble n s.filter event before letIn stage s.documents frames) (hl : Lined s)
    (ha : s.view.Apart (· ≠ n)) (hn : s.stageOf n = some stage)
    (hothers : ∀ e ∈ events, e.isDocument = false) (hkeep : .drop n ∉ events)
    (hclear : Throughout (Clear n) s events ∨ trouble) :
    ∃ next, (s.run events).stageOf n = some next ∧ (s.run events).view.Apart (· ≠ n) ∧
      Consulting trouble n s.filter event before (letIn || s.letsIn n events) next
        (s.run events).documents (frames ++ s.documentFrames events) := by
  induction events generalizing s letIn stage frames with
  | nil =>
    refine ⟨stage, hn, ha, ?_⟩
    rw [letsIn, Bool.or_false, documentFrames, dispatches, List.filter_nil, List.append_nil]
    exact h
  | cons e events ih =>
    obtain ⟨hne, hkeep'⟩ := List.ne_and_not_mem_of_not_mem_cons hkeep
    obtain ⟨he, hothers'⟩ := List.forall_mem_cons.mp hothers
    obtain ⟨next, hnext, hconsults⟩ :=
      h.apply hl ha hn (Ne.symm hne) (hclear.imp_left fun hc => hc.1)
    rw [← filter_apply s e] at hconsults
    have hrun := ih hconsults (hl.apply e) (ha.step (course hl e) he) hnext hothers' hkeep'
      (hclear.imp_left fun hc => hc.2)
    rw [filter_apply s e, Bool.or_assoc, List.append_assoc] at hrun
    rw [letsIn, hnext, documentFrames, dispatches, List.filter_append]
    exact hrun

end Consulting

end Session

end LanguageClient
