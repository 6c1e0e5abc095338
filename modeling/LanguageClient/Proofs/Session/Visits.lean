import LanguageClient.Proofs.Session.Documents

/-!
# What the server is told about documents

A `Visit` is a document call with all that happens until the next one; whatever else goes on in the
meantime does not matter. From visit to visit the open documents keep track of what was decided about
the events so far, as long as nothing stands in the way of the calls, so the decisions are those of
`History.Warrants` and what the server is told makes sense to it.

If something does stand in the way, the open documents are ahead of the server: a call that fails has
changed them already if it was let in.
-/

namespace LanguageClient

/-- What a call has decided about its event, if it came to a decision. -/
def Outcome.decision : Outcome → Routed
  | .routed r => r
  | _ => .ignored

/-- What a call has returned about its event. -/
def Stage.verdict : Stage → Option Routed
  | .over (.routed r) => some r
  | _ => none

theorem Stage.over_of_verdict {stage : Option Stage} {r : Routed}
    (h : stage.bind Stage.verdict = some r) : stage = some (.over (.routed r)) := by
  obtain ⟨stage, rfl, hverdict⟩ := Option.bind_eq_some_iff.mp h
  unfold Stage.verdict at hverdict
  split at hverdict
  · rw [Option.some.inj hverdict]
  · cases hverdict

def Stage.error : Stage → Option SessionError
  | .over (.failed error) => some error
  | _ => none

theorem Stage.over_of_error {stage : Option Stage} {error : SessionError}
    (h : stage.bind Stage.error = some error) : stage = some (.over (.failed error)) := by
  obtain ⟨stage, rfl, herror⟩ := Option.bind_eq_some_iff.mp h
  unfold Stage.error at herror
  split at herror
  · rw [Option.some.inj herror]
  · cases herror

namespace Session

variable {s : Session}

def Idle (s : Session) : Prop := s.view.Apart fun _ => True

theorem idle_start (settings : SessionSettings) (filter : DocumentFilter) (label : String)
    (processId now : Nat) : Idle (start settings filter label processId now) := by
  intro m stage _ hm
  obtain ⟨-, rfl⟩ := stageOf_start_eq_some hm
  rfl

theorem Idle.run {events : List Event} (h : Idle s) (hl : Lined s)
    (hothers : ∀ e ∈ events, e.isDocument = false) :
    Idle (s.run events) ∧ (s.run events).documents = s.documents := by
  induction events generalizing s with
  | nil => exact ⟨h, rfl⟩
  | cons e events ih =>
    obtain ⟨he, hothers'⟩ := List.forall_mem_cons.mp hothers
    obtain ⟨hidle, hdocuments⟩ := ih (h.step (course hl e) he) (hl.apply e) hothers'
    refine ⟨hidle, hdocuments.trans ?_⟩
    rcases (apply_change s e).documents with hsame | ⟨-, n, event, -, hn⟩
    · exact hsame.2
    · cases h n _ trivial hn

structure Visit where
  number : Nat
  event : DocumentEvent
  during : List Event

def Visit.events (v : Visit) : List Event := .call v.number (.document v.event) :: v.during

/-- The call is made under a new number, and returns before anybody makes another document call. -/
structure Visit.Returns (s : Session) (v : Visit) (outcome : Outcome) : Prop where
  new : s.calls.get? v.number = none
  single : ∀ e ∈ v.during, e.isDocument = false
  kept : .drop v.number ∉ v.during
  returned : (s.run v.events).stageOf v.number = some (.over outcome)

def Event.drops (n : Nat) : Event → Bool
  | .drop m => m == n
  | _ => false

/-- Whether a visit is one, as far as can be seen without knowing what comes of it. -/
def Visit.check (s : Session) (v : Visit) : Bool :=
  (s.calls.get? v.number).isNone && v.during.all fun e => !e.isDocument && !e.drops v.number

theorem Visit.returns_of_check {v : Visit} {outcome : Outcome} (h : v.check s = true)
    (hover : (s.run v.events).stageOf v.number = some (.over outcome)) : v.Returns s outcome := by
  simp only [Visit.check, Bool.and_eq_true, List.all_eq_true, Bool.not_eq_true',
    Option.isNone_iff_eq_none] at h
  obtain ⟨hnew, hduring⟩ := h
  refine ⟨hnew, fun e he => (hduring e he).1, fun hdrop => ?_, hover⟩
  have hkept := (hduring _ hdrop).2
  rw [Event.drops, beq_self_eq_true] at hkept
  cases hkept

theorem Visit.Returns.account {v : Visit} {outcome : Outcome} (h : v.Returns s outcome)
    (trouble : Prop) (hl : Lined s) (hidle : Idle s)
    (hclear : Throughout (Clear v.number) s v.events ∨ trouble) :
    Idle (s.run v.events) ∧
      Consulting trouble v.number s.filter v.event s.documents (s.letsIn v.number v.events)
        (.over outcome) (s.run v.events).documents (s.documentFrames v.events) := by
  have hcalled : s.apply (.call v.number (.document v.event)) =
      { s with calls := s.calls.set v.number { stage := .fresh (.document v.event) } } := by
    rw [Session.apply, h.new]
  have hstage : (s.apply (.call v.number (.document v.event))).stageOf v.number =
      some (.fresh (.document v.event)) := by
    rw [hcalled, stageOf_setCall, if_pos rfl]
  have hothers : s.view.Apart (· ≠ v.number) := fun m stage _ => hidle m stage trivial
  have hapart : (s.apply (.call v.number (.document v.event))).view.Apart (· ≠ v.number) := by
    rw [hcalled, view_setCall]
    exact hothers.put rfl fun hne => absurd rfl hne
  have hwaits : Consulting trouble v.number (s.apply (.call v.number (.document v.event))).filter
      v.event s.documents false (.fresh (.document v.event))
      (s.apply (.call v.number (.document v.event))).documents [] := by
    rw [hcalled]
    exact .waits
  obtain ⟨next, hnext, hapart', hconsults⟩ :=
    hwaits.run (hl.apply _) hapart hstage h.single h.kept (hclear.imp_left fun hc => hc.2)
  obtain rfl := Option.some.inj (hnext.symm.trans h.returned)
  refine ⟨fun m stage _ hm => ?_, ?_⟩
  · by_cases hne : m = v.number
    · subst hne
      obtain rfl := Option.some.inj (hm.symm.trans h.returned)
      rfl
    · exact hapart' m stage hne hm
  · rw [filter_apply] at hconsults
    rw [Visit.events, letsIn, hstage, documentFrames, dispatches]
    exact hconsults

/-! ## Calls that fail -/

theorem run_append (s : Session) (events more : List Event) :
    s.run (events ++ more) = (s.run events).run more :=
  List.foldl_append

/-- A document call that fails has offered its event by then if it was let in, and only then. So the
open documents are the same as before if the call was turned away at the door, or if there was nothing
to change: the event was a change, or opened a document that was open already. -/
theorem documents_after_failed_call (settings : SessionSettings) (filter : DocumentFilter)
    (label : String) (processId now : Nat) (before : List Event) (v : Visit) (error : SessionError)
    (hidle : Idle ((start settings filter label processId now).run before))
    (hfailed : v.Returns ((start settings filter label processId now).run before)
      (.failed error)) :
    let s := (start settings filter label processId now).run before
    (s.run v.events).documents =
        (if s.letsIn v.number v.events then (s.documents.offer s.filter v.event).2
          else s.documents) ∧
      ((s.run v.events).documents = s.documents ↔
        s.letsIn v.number v.events = false ∨
          v.event.opens = false ∧ v.event.closes = false ∨
          v.event.opens = true ∧ v.event.subject ∈ s.documents.uris) := by
  intro s
  have hl : Lined s := (lined_start settings filter label processId now).run before
  obtain ⟨-, hconsults⟩ := hfailed.account True hl hidle (.inr trivial)
  rcases hconsults.of_failed with ⟨hletIn, hsame⟩ | ⟨hletIn, hrouted, hoffered⟩
  · change s.letsIn v.number v.events = false at hletIn
    rw [hletIn]
    exact ⟨hsame, fun _ => .inl rfl, fun _ => hsame⟩
  · change s.letsIn v.number v.events = true at hletIn
    change (s.run v.events).documents = (s.documents.offer s.filter v.event).2 at hoffered
    rw [hletIn, hoffered]
    refine ⟨rfl, (OpenDocuments.offer_eq_self_iff hrouted).trans ⟨.inr, ?_⟩⟩
    exact fun h => h.resolve_left (by decide)

/-- A document that a session without further settings is about. -/
def sourceFile : Uri := ⟨"file:///main.fb", some "file"⟩

/-- The document is opened, and the stream breaks when the server is to be told. -/
def brokenOpening : Visit :=
  { number := 1
    event := .didOpen sourceFile "fireball" 1 ""
    during := List.replicate 4 (.step (.call 1)) ++ [.refuse (.call 1) { kind := .brokenPipe }] }

/-- The call fails, and the document counts as open afterwards. -/
theorem documents_changed_by_failed_call :
    let s := (start {} {} "custom" 0 0).run handshake
    brokenOpening.Returns s (.failed (.transport (.io { kind := .brokenPipe }))) ∧
      s.documents = {} ∧ (s.run brokenOpening.events).documents = ⟨["file:///main.fb"]⟩ := by
  intro s
  obtain ⟨hcheck, herror, hdocuments⟩ : brokenOpening.check s = true ∧
      ((s.run brokenOpening.events).stageOf 1).bind Stage.error =
        some (.transport (.io { kind := .brokenPipe })) ∧
      s.documents = {} ∧ (s.run brokenOpening.events).documents = ⟨["file:///main.fb"]⟩ := by
    decide +kernel
  exact ⟨Visit.returns_of_check hcheck (Stage.over_of_error herror), hdocuments⟩

def forwardedOpening : Visit :=
  { number := 1
    event := .didOpen sourceFile "fireball" 1 ""
    during := List.replicate 3 (.step (.call 1)) ++ writes 1 }

/-- The open document is changed, and the stream breaks when the server is to be told. -/
def brokenChange : Visit :=
  { number := 2
    event := .didChange sourceFile 2 []
    during := List.replicate 4 (.step (.call 2)) ++ [.refuse (.call 2) { kind := .brokenPipe }] }

/-- This call fails as well, on a running session that has let it in, and changes nothing. -/
theorem documents_kept_by_failed_change :
    let s := (start {} {} "custom" 0 0).run (handshake ++ forwardedOpening.events)
    s.state = .running ∧ s.documents = ⟨["file:///main.fb"]⟩ ∧
      brokenChange.Returns s (.failed (.transport (.io { kind := .brokenPipe }))) ∧
      s.letsIn 2 brokenChange.events = true ∧
      (s.run brokenChange.events).documents = s.documents := by
  intro s
  obtain ⟨hopening, hverdict, hstate, hdocuments, hcheck, herror, hletIn⟩ :
      forwardedOpening.check ((start {} {} "custom" 0 0).run handshake) = true ∧
      ((((start {} {} "custom" 0 0).run handshake).run forwardedOpening.events).stageOf 1).bind
        Stage.verdict = some .forwarded ∧
      s.state = .running ∧ s.documents = ⟨["file:///main.fb"]⟩ ∧ brokenChange.check s = true ∧
      ((s.run brokenChange.events).stageOf 2).bind Stage.error =
        some (.transport (.io { kind := .brokenPipe })) ∧
      s.letsIn 2 brokenChange.events = true := by
    decide +kernel
  have hstart := lined_start {} {} "custom" 0 0
  obtain ⟨hquiet, -⟩ := (idle_start {} {} "custom" 0 0).run hstart (by decide +kernel :
    ∀ e ∈ handshake, e.isDocument = false)
  have hopened := Visit.returns_of_check hopening (Stage.over_of_verdict hverdict)
  have hidle : Idle s := by
    have hopenedIdle := (hopened.account True (hstart.run handshake) hquiet (.inr trivial)).1
    rwa [← run_append] at hopenedIdle
  have hfailed := Visit.returns_of_check hcheck (Stage.over_of_error herror)
  exact ⟨hstate, hdocuments, hfailed, hletIn,
    (documents_after_failed_call {} {} "custom" 0 0 (handshake ++ forwardedOpening.events)
      brokenChange _ hidle hfailed).2.mpr (.inr (.inl ⟨rfl, rfl⟩))⟩

/-! ## Calls that come to a decision

A history is what the filter decided about each call. The open documents are a function of it. -/

/-- Visits one after the other with what came of each. Nothing stands in the way of the calls. -/
def Visits (s : Session) : List (Visit × Outcome) → Prop
  | [] => True
  | (v, outcome) :: visits =>
    v.Returns s outcome ∧ Throughout (Clear v.number) s v.events ∧ Visits (s.run v.events) visits

def eventsOf (visits : List (Visit × Outcome)) : List Event := visits.flatMap (·.1.events)

theorem eventsOf_cons (v : Visit × Outcome) (visits : List (Visit × Outcome)) :
    eventsOf (v :: visits) = v.1.events ++ eventsOf visits :=
  List.flatMap_cons

def historyOf (visits : List (Visit × Outcome)) : History :=
  visits.map fun v => (v.1.event, v.2.decision)

def reportsOf (visits : List (Visit × Outcome)) : List Dispatch :=
  (visits.filter (·.2.decision = .forwarded)).map fun v => report v.1.number v.1.event

theorem reportsOf_cons (v : Visit) (outcome : Outcome) (visits : List (Visit × Outcome)) :
    reportsOf ((v, outcome) :: visits) =
      (if outcome.decision = .forwarded then [report v.number v.event] else []) ++
        reportsOf visits := by
  rw [reportsOf, List.filter_cons]
  simp only [decide_eq_true_eq]
  split <;> rfl

/-- The call comes to a decision, and puts its frame on the wire exactly if it is to forward the
event. -/
structure Visit.Decides (s : Session) (v : Visit) (outcome : Outcome) : Prop where
  decided : outcome = .routed outcome.decision
  told : s.documentFrames v.events =
    if outcome.decision = .forwarded then [report v.number v.event] else []

theorem filter_run (s : Session) (events : List Event) : (s.run events).filter = s.filter := by
  induction events generalizing s with
  | nil => rfl
  | cons e events ih => exact (ih (s.apply e)).trans (filter_apply s e)

theorem documentFrames_append (events more : List Event) :
    s.documentFrames (events ++ more) =
      s.documentFrames events ++ (s.run events).documentFrames more := by
  induction events generalizing s with
  | nil => rfl
  | cons e events ih =>
    have hrest := ih (s := s.apply e)
    simp only [documentFrames, dispatches, List.cons_append, List.filter_append] at hrest ⊢
    rw [hrest, List.append_assoc]
    rfl

theorem Visits.account {filter : DocumentFilter} {past : History}
    {visits : List (Visit × Outcome)} (h : Visits s visits) (hl : Lined s) (hidle : Idle s)
    (hfilter : s.filter = filter) (htracks : s.documents.Tracks past)
    (hpast : past.Decided filter) :
    (past ++ historyOf visits).Decided filter ∧
      s.documentFrames (eventsOf visits) = reportsOf visits ∧
      ∀ early v outcome late, visits = early ++ (v, outcome) :: late →
        v.Decides (s.run (eventsOf early)) outcome := by
  induction visits generalizing s past with
  | nil =>
    rw [historyOf, List.map_nil, List.append_nil]
    exact ⟨hpast, rfl, fun early _ _ _ heq => by cases early <;> cases heq⟩
  | cons visit visits ih =>
    obtain ⟨v, outcome⟩ := visit
    obtain ⟨hreturns, hclear, hrest⟩ := h
    obtain ⟨hidle', hconsults⟩ := hreturns.account False hl hidle (.inl hclear)
    obtain ⟨rfl, hdocuments, hframes⟩ := hconsults.of_clear
    subst hfilter
    -- The open documents track the history with this visit in it.
    have htracks' := htracks.offer s.filter v.event
    rw [← hdocuments] at htracks'
    have hpast' := History.decided_snoc.mpr ⟨hpast, htracks.forwards s.filter v.event⟩
    obtain ⟨hdecided, hreports, hsplit⟩ :=
      ih hrest (hl.run _) hidle' (filter_run s v.events) htracks' hpast'
    refine ⟨?_, ?_, ?_⟩
    · rw [historyOf, List.map_cons, List.append_cons]
      exact hdecided
    · rw [eventsOf_cons, documentFrames_append, hframes, hreports, reportsOf_cons]
      rfl
    · rintro (_ | ⟨first, early⟩) v' outcome' late heq
      · obtain ⟨hfirst, -⟩ := List.cons.inj heq
        obtain ⟨rfl, rfl⟩ := Prod.mk.inj hfirst
        exact ⟨rfl, hframes⟩
      · obtain ⟨rfl, hlater⟩ := List.cons.inj heq
        have hdecides := hsplit early v' outcome' late hlater
        rw [← run_append] at hdecides
        exact hdecides

/-- **What the server is told about documents.** Document calls are made one after the other, and
nothing stands in their way. Each of them comes to a decision, and puts its notification on the wire
exactly if it returns that the event was forwarded. An opening is forwarded exactly if the filter
matches the document, and a change or a closing exactly while the document is open by what was
forwarded before. So the server finds the document of every change and of every closing open. -/
theorem documents_told_in_order (settings : SessionSettings) (filter : DocumentFilter)
    (label : String) (processId now : Nat) (before : List Event)
    (visits : List (Visit × Outcome)) (hbefore : ∀ e ∈ before, e.isDocument = false)
    (hvisits : Visits ((start settings filter label processId now).run before) visits) :
    let s := (start settings filter label processId now).run before
    (∀ early v outcome late, visits = early ++ (v, outcome) :: late →
        v.Decides (s.run (eventsOf early)) outcome) ∧
      (historyOf visits).Decided filter ∧
      s.documentFrames (eventsOf visits) = reportsOf visits ∧
      (s.run (eventsOf visits)).sent =
        s.sent ++ (s.dispatches (eventsOf visits)).map (·.payload) ∧
      Understood (historyOf visits).forwarded := by
  intro s
  have hl : Lined s := (lined_start settings filter label processId now).run before
  obtain ⟨hidle, hnone⟩ :=
    (idle_start settings filter label processId now).run (lined_start ..) hbefore
  have hfilter : s.filter = filter := filter_run (start settings filter label processId now) before
  have htracks : s.documents.Tracks [] := hnone ▸ OpenDocuments.tracks_nil
  obtain ⟨hdecided, hreports, hsplit⟩ :=
    hvisits.account hl hidle hfilter htracks History.decided_nil
  exact ⟨hsplit, hdecided, hreports, sent_run hl _, hdecided.understood⟩

/-- Whether visits come to the decisions that are named, found out by going through them. -/
def checkVisits (s : Session) : List (Visit × Routed) → Bool
  | [] => true
  | (v, r) :: visits =>
    v.check s && ((s.run v.events).stageOf v.number).bind Stage.verdict == some r &&
      decide (Throughout (Clear v.number) s v.events) && checkVisits (s.run v.events) visits

def returning (visits : List (Visit × Routed)) : List (Visit × Outcome) :=
  visits.map fun v => (v.1, .routed v.2)

theorem visits_of_check {visits : List (Visit × Routed)} (h : s.checkVisits visits = true) :
    Visits s (returning visits) := by
  induction visits generalizing s with
  | nil => trivial
  | cons visit visits ih =>
    obtain ⟨v, r⟩ := visit
    simp only [checkVisits, Bool.and_eq_true, beq_iff_eq, decide_eq_true_eq] at h
    obtain ⟨⟨⟨hcheck, hverdict⟩, hclear⟩, hrest⟩ := h
    exact ⟨Visit.returns_of_check hcheck (Stage.over_of_verdict hverdict), hclear, ih hrest⟩

/-- A document is opened and closed, and changed when it is too late. -/
def shortEdit : List (Visit × Routed) :=
  [(forwardedOpening, .forwarded),
    (⟨2, .didClose sourceFile, List.replicate 3 (.step (.call 2)) ++ writes 2⟩, .forwarded),
    (⟨3, .didChange sourceFile 2 [], List.replicate 2 (.step (.call 3))⟩, .ignored)]

/-- The server is told of the opening and of the closing, and finds the document open. -/
theorem shortEdit_understood :
    Understood [.didOpen sourceFile "fireball" 1 "", .didClose sourceFile] :=
  (documents_told_in_order {} {} "custom" 0 0 handshake (returning shortEdit) (by decide +kernel)
    (visits_of_check (by decide +kernel))).2.2.2.2

end Session

end LanguageClient
