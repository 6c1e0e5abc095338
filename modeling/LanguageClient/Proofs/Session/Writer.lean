import LanguageClient.Proofs.Session.Bystanders

/-!
# Waiting for the writer

The writer goes from task to task in the order in which it was asked for. What a task has to do at
the writer is its *errand*; the queue holds exactly the tasks that have one (`Lined`). Every event
deals with one task there, and nobody else is touched (`Change.atWriter`). For the queue that means: it
gives an errand to a task, which joins the queue, takes one task further with its errand, or ends an
errand, and its task leaves the queue (`Change.turn`).

The work that lies before a task is the sum of the errands up to its own (`ahead`). It never grows,
and it shrinks whenever something happens to the errand at the head of the queue (`Turn.ahead`), so
whoever waits for the writer gets it as long as others are not kept from what they have to do there.
-/

namespace LanguageClient

inductive Errand where
  /-- To wait for its turn and then to write a frame of this payload. -/
  | queued (payload : List UInt8)
  | writing (rest : List UInt8)
  /-- To wait for its turn and then to take the writer away. -/
  | closing

/-- The number of things that have to happen until an errand is done. -/
def Errand.effort : Errand → Nat
  | .queued payload => (Frame.encode payload).length + 2
  | .writing rest => rest.length + 1
  | .closing => 1

def Errand.offers : Errand → List UInt8
  | .writing rest => rest
  | _ => []

def Sending.errand : Sending → Option Errand
  | .fresh _ => none
  | .queued payload => some (.queued payload)
  | .writing _ rest => some (.writing rest)

def Closing.errand : Closing → Option Errand
  | .queued => some .closing
  | _ => none

def Stage.errand : Stage → Option Errand
  | .working (.exchange (.sending _ sending)) _ _ => sending.errand
  | .working (.send sending) _ _ => sending.errand
  | .givingUp closing _ | .ending closing _ => closing.errand
  | _ => none

def RefusalStage.errand : RefusalStage → Option Errand
  | .fresh _ => none
  | .sending send => send.errand

/-- What is being written: the payload of the frame, and the octets that are left. -/
def Sending.pen : Sending → Option (List UInt8 × List UInt8)
  | .writing payload rest => some (payload, rest)
  | _ => none

def Stage.pen : Stage → Option (List UInt8 × List UInt8)
  | .working (.exchange (.sending _ sending)) _ _ => sending.pen
  | .working (.send sending) _ _ => sending.pen
  | _ => none

def RefusalStage.pen : RefusalStage → Option (List UInt8 × List UInt8)
  | .fresh _ => none
  | .sending send => send.pen

/-- What there is to be done at the writer, and what is being written there. -/
def Sending.desk (sending : Sending) : Option Errand × Option (List UInt8 × List UInt8) :=
  (sending.errand, sending.pen)

def Stage.desk (stage : Stage) : Option Errand × Option (List UInt8 × List UInt8) :=
  (stage.errand, stage.pen)

namespace Session

def errand (s : Session) : Task → Option Errand
  | .call n => (s.stageOf n).bind Stage.errand
  | .reader => none
  | .refusal n => (s.refusals.get? n).bind RefusalStage.errand

def pen (s : Session) : Task → Option (List UInt8 × List UInt8)
  | .call n => (s.stageOf n).bind Stage.pen
  | .reader => none
  | .refusal n => (s.refusals.get? n).bind RefusalStage.pen

def desk (s : Session) (t : Task) : Option Errand × Option (List UInt8 × List UInt8) :=
  (s.errand t, s.pen t)

def outgoing (s : Session) : List UInt8 × List (List UInt8) := (s.wire, s.sent)

def ledger (s : Session) : List Task × List UInt8 × List (List UInt8) := (s.queue, s.outgoing)

def Numbered (s : Session) : Prop := ∀ k, s.nextRefusal ≤ k → s.refusals.get? k = none

/-- The queue holds the tasks that have an errand, each of them once. -/
structure Lined (s : Session) : Prop where
  numbered : s.Numbered
  distinct : s.queue.Nodup
  queued : ∀ t, t ∈ s.queue ↔ (s.errand t).isSome = true

inductive Turn (s s' : Session) : Prop where
  | stays (hq : s'.queue = s.queue) (hall : ∀ u, s'.errand u = s.errand u) : Turn s s'
  | joins {t : Task} {x : Errand} (hnone : s.errand t = none) (hq : s'.queue = s.queue ++ [t])
      (hself : s'.errand t = some x) (hother : ∀ u, u ≠ t → s'.errand u = s.errand u) : Turn s s'
  | works {t : Task} {x y : Errand} (hbefore : s.errand t = some x)
      (hq : s'.queue = s.queue) (hself : s'.errand t = some y) (hless : y.effort < x.effort)
      (hother : ∀ u, u ≠ t → s'.errand u = s.errand u) : Turn s s'
  | leaves {t : Task} (hq : s'.queue = s.queue.filter (· != t)) (hself : s'.errand t = none)
      (hother : ∀ u, u ≠ t → s'.errand u = s.errand u) : Turn s s'

/-- What a task is writing is broken off: the stream refuses it, the caller loses interest, or the
time is over. -/
inductive BreaksOff (s : Session) : Task → Event → Prop where
  | refused {t : Task} {cause : IoError} : BreaksOff s t (.refuse t cause)
  | dropped {n : Nat} : BreaksOff s (.call n) (.drop n)
  | late {n deadline : Nat} {work : Work} {purpose : Purpose}
      (hn : s.stageOf n = some (.working work (some deadline) purpose)) (hlate : deadline ≤ s.now) :
      BreaksOff s (.call n) (.step (.call n))

/-- What an event does at the writer on behalf of task `t`. -/
inductive AtWriter (s : Session) (e : Event) (t : Task) (s' : Session) : Prop where
  | stays (hl : s'.ledger = s.ledger) (hself : s'.desk t = s.desk t)
  | goesOn {sending next : Sending} {mid : Session} (h : Sends s t sending (.going mid next))
      (hl : s'.ledger = mid.ledger) (hbefore : s.desk t = sending.desk)
      (hafter : s'.desk t = next.desk)
  | finishes {sending : Sending} {mid : Session} {result : Except SessionError Json}
      (h : Sends s t sending (.finished mid result)) (hl : s'.ledger = mid.ledger)
      (hbefore : s.desk t = sending.desk) (hafter : s'.desk t = (none, none))
  | pours {payload rest : List UInt8} (count : Nat)
      (hl : s'.ledger = (s.queue, s.wire ++ rest.take count, s.sent))
      (hbefore : s.desk t = (Sending.writing payload rest).desk)
      (hafter : s'.desk t = (Sending.writing payload (rest.drop count)).desk)
  | closes {n : Nat} {closing : Closing} {mid : Session} {next : Option Closing} (ht : t = .call n)
      (h : Closes s n closing mid next) (hl : s'.ledger = mid.ledger)
      (hbefore : s.desk t = (closing.errand, none))
      (hafter : s'.desk t = (next.bind Closing.errand, none))
  | breaks (hcause : BreaksOff s t e)
      (hl : s'.ledger = (s.queue.filter (· != t), s.outgoing))
      (hafter : s'.desk t = (none, none))

variable {s s' mid : Session} {n : Nat} {t : Task}

/-! ## One event

What a task has to do at the writer and what it has in hand are looked at together, since the same
events change them. -/

variable {e : Event} {hs : List Happening} {stage : Stage} {u : Task} {sending : Sending}

theorem Change.numbered (h : Change s e hs s') (hnum : s.Numbered) : s'.Numbered := by
  intro k hk
  cases h.refusals with
  | kept hnext hsame =>
    have hnone := hnum k (hnext ▸ hk)
    rw [hsame k (.inl hnone), hnone]
  | added request hnext hset =>
    have hlt : s.nextRefusal < k := by omega
    rw [hset, Table.get?_set, if_neg (Nat.ne_of_gt hlt)]
    exact hnum k (Nat.le_of_lt hlt)

/-- What can be said about a refusal that has not begun to write is only changed by events that are
about it: one that is new has not begun. -/
theorem Change.view_refusal {α : Type} {view : RefusalStage → Option α} (h : Change s e hs s')
    (hnum : s.Numbered) (hview : ∀ request, view (.fresh request) = none)
    (he : e.isOf (.refusal n) = false) :
    (s'.refusals.get? n).bind view = (s.refusals.get? n).bind view := by
  cases h.refusals with
  | kept hnext hsame => rw [hsame n (.inr he)]
  | added request hnext hset =>
    rw [hset, Table.get?_set]
    by_cases hn : n = s.nextRefusal
    · rw [if_pos hn, hn, hnum s.nextRefusal (Nat.le_refl _)]
      exact hview request
    · rw [if_neg hn]

theorem errand_call (h : s.stageOf n = some stage) :
    s.errand (.call n) = stage.errand := by
  rw [errand, h]
  rfl

theorem errand_refusal {stage : RefusalStage} (h : s.refusals.get? n = some stage) :
    s.errand (.refusal n) = stage.errand := by
  rw [errand, h]
  rfl

theorem errand_refusal_set {refusals : Table RefusalStage} {stage : RefusalStage}
    (h : s.refusals = refusals.set n stage) : s.errand (.refusal n) = stage.errand :=
  errand_refusal (h ▸ Table.get?_set_self ..)

theorem errand_of_no_call (h : s.calls.get? n = none) : s.errand (.call n) = none := by
  rw [errand, stageOf, h]
  rfl

theorem errand_of_no_refusal (h : s.refusals.get? n = none) : s.errand (.refusal n) = none := by
  rw [errand, h]
  rfl

theorem errand_of_atRest (h : stage.atRest = true) : stage.errand = none := by
  cases stage with
  | working work deadline purpose =>
    cases work with
    | exchange exchange =>
      cases exchange with
      | sending id sending => cases h
      | _ => rfl
    | send sending =>
      cases sending with
      | fresh payload => rfl
      | _ => cases h
  | givingUp closing error | ending closing result =>
    cases closing with
    | queued => cases h
    | _ => rfl
  | _ => rfl

theorem pen_of_errand (h : stage.errand = none) : stage.pen = none := by
  cases stage with
  | working work deadline purpose =>
    cases work with
    | exchange exchange =>
      cases exchange with
      | sending id sending => cases sending <;> first | rfl | cases h
      | _ => rfl
    | send sending => cases sending <;> first | rfl | cases h
  | _ => rfl

theorem desk_call (h : s.stageOf n = some stage) : s.desk (.call n) = stage.desk := by
  rw [desk, errand_call h, pen, h]
  rfl

theorem desk_refusal {send : Sending} (h : s.refusals.get? n = some (.sending send)) :
    s.desk (.refusal n) = send.desk := by
  rw [desk, errand_refusal h, pen, h]
  rfl

theorem desk_of_no_call (h : s.calls.get? n = none) : s.desk (.call n) = (none, none) := by
  rw [desk, errand_of_no_call h, pen, stageOf, h]
  rfl

theorem desk_of_no_refusal (h : s.refusals.get? n = none) : s.desk (.refusal n) = (none, none) := by
  rw [desk, errand_of_no_refusal h, pen, h]
  rfl

theorem desk_moved {next : Stage} (h : mid.stageOf n = some stage) :
    (mid.moveCall n next).desk (.call n) = next.desk :=
  desk_call (stageOf_moved h)

theorem Change.desk (h : Change s e hs s') (hnum : s.Numbered) (he : e.isOf t = false) :
    s'.desk t = s.desk t := by
  cases t with
  | reader => rfl
  | call n =>
    rw [Session.desk, Session.errand, Session.pen, h.stageOf he]
    rfl
  | refusal n =>
    exact Prod.ext (h.view_refusal hnum (fun _ => rfl) he) (h.view_refusal hnum (fun _ => rfl) he)

theorem ledger_moveCall (s : Session) (n : Nat) (stage : Stage) :
    (s.moveCall n stage).ledger = s.ledger := by
  obtain ⟨calls, h⟩ := moveCall_eq s n stage
  rw [h]
  rfl

theorem ledger_abandonPending (s : Session) : s.abandonPending.ledger = s.ledger := by
  obtain ⟨calls, h⟩ := abandonPending_eq s
  rw [h]
  rfl

theorem ledger_handle (s : Session) (payload : List UInt8) :
    (s.handle payload).ledger = s.ledger := by
  obtain ⟨calls, pending, log, refusals, nextRefusal, notices, h⟩ := handle_eq s payload
  rw [h]
  rfl

theorem ledger_dropWork (s : Session) (t : Task) (work : Work) :
    (s.dropWork t work).ledger = (s.queue.filter (· != t), s.outgoing) := by
  obtain ⟨pending, h⟩ := dropWork_eq s t work
  rw [h]
  rfl

theorem Settled.ledger (h : Settled s n s') : s'.ledger = s.ledger := by
  obtain ⟨calls, state, documents, introduction, log, rfl⟩ := h.eq
  rfl

theorem Settled.desk_self (h : Settled s n s') : s'.desk (.call n) = (none, none) := by
  obtain ⟨mid, stage, haside, hrest, rfl⟩ := h
  have hnone := errand_of_atRest hrest
  rw [desk, errand, pen, stageOf_moveCall, if_pos rfl]
  cases mid.stageOf n with
  | none => rfl
  | some stage' => exact Prod.ext hnone (pen_of_errand hnone)

theorem Settled.errand_self (h : Settled s n s') : s'.errand (.call n) = none :=
  congrArg Prod.fst h.desk_self

theorem isOf_ne (h : e.isOf t = true) (hu : u ≠ t) : e.isOf u = false := by
  have hbeq : ∀ {v : Task}, (t == v) = true → (u == v) = false := by
    intro v hv
    obtain rfl := eq_of_beq hv
    exact beq_eq_false_iff_ne.mpr hu
  cases e with
  | call n ask => exact hbeq h
  | step v => exact hbeq h
  | accept v count => exact hbeq h
  | refuse v cause => exact hbeq h
  | drop n => exact hbeq h
  | _ => rfl

theorem errand_moved {next : Stage} (h : mid.stageOf n = some stage) :
    (mid.moveCall n next).errand (.call n) = next.errand :=
  errand_call (stageOf_moved h)

theorem errand_of_not_waiting (hw : stage.isWorking = false) (hst : stage.waitsToClose = false) :
    stage.errand = none := by
  cases stage with
  | working work deadline purpose => cases hw
  | givingUp closing error | ending closing result =>
    cases closing with
    | queued => cases hst
    | _ => rfl
  | _ => rfl

theorem sendingOf_refusal (h : s.sendingOf (.refusal n) = some sending) :
    s.refusals.get? n = some (.sending sending) := by
  unfold sendingOf at h
  dsimp only at h
  split at h
  · next hr => rw [hr, Option.some.inj h]
  · cases h

theorem desk_sendingOf {mailbox : Option Reply} (hc : s.At n stage mailbox)
    (h : s.sendingOf (.call n) = some sending) (next : Sending) :
    s.desk (.call n) = sending.desk ∧ (replaceSending next stage).desk = next.desk := by
  obtain ⟨deadline, purpose, mailbox', ⟨id, hc'⟩ | hc'⟩ := sendingOf_call h
  all_goals
    obtain ⟨rfl, -⟩ := Call.mk.inj (Option.some.inj (hc.symm.trans hc'))
    exact ⟨desk_call (stageOf_of_get? hc'), rfl⟩

/-- Every event has to do with one task at the writer, and leaves the others there alone. -/
theorem Change.atWriter (h : Change s e hs s') (hnum : s.Numbered) :
    ∃ t, (∀ u, u ≠ t → s'.desk u = s.desk u) ∧ AtWriter s e t s' := by
  have hof : ∀ {t : Task}, e.isOf t = true → AtWriter s e t s' →
      ∃ t, (∀ u, u ≠ t → s'.desk u = s.desk u) ∧ AtWriter s e t s' :=
    fun he hat => ⟨_, fun u hu => h.desk hnum (isOf_ne he hu), hat⟩
  have hbefore : ∀ {n : Nat} {stage : Stage} {mailbox : Option Reply}, s.At n stage mailbox →
      s.desk (.call n) = stage.desk := fun hc => desk_call (stageOf_of_get? hc)
  -- Most steps are made by a call that has nothing to do at the writer, neither before nor after.
  have hidle : ∀ {n : Nat} {stage : Stage} {mailbox : Option Reply}, s.At n stage mailbox →
      stage.desk = (none, none) → s'.ledger = s.ledger → s'.desk (.call n) = (none, none) →
      AtWriter s e (.call n) s' := fun hc hnone hl hafter =>
    .stays hl (hafter.trans ((hbefore hc).trans hnone).symm)
  have hself : ∀ {t : Task}, (t == t) = true := beq_self_eq_true _
  cases h with
  | idle | outside hnow => exact ⟨.reader, fun _ _ => rfl, .stays rfl rfl⟩
  | @called n ask hc =>
    have hnew : Session.stageOf { s with calls := s.calls.set n { stage := .fresh ask } } n =
        some (.fresh ask) := (stageOf_setCall s n n _).trans (if_pos rfl)
    exact hof hself (.stays rfl ((desk_call hnew).trans (desk_of_no_call hc).symm))
  | opened hc =>
    exact hof hself (hidle hc rfl (settled_openCall ..).ledger (settled_openCall ..).desk_self)
  | proceeded hc =>
    exact hof hself (hidle hc rfl (settled_proceed hc).ledger (settled_proceed hc).desk_self)
  | looked hc hw =>
    exact hof hself (hidle hc rfl (settled_drainCheck ..).ledger (settled_drainCheck ..).desk_self)
  | leaves hc hup | ends hc hup | tested hc hup =>
    exact hof hself (hidle hc rfl (ledger_moveCall ..) (desk_moved (stageOf_of_get? hc)))
  | registered hc =>
    exact hof hself (hidle hc rfl rfl (desk_call ((stageOf_setCall s _ _ _).trans (if_pos rfl))))
  | foundHungUp hc hup | replied hc =>
    exact hof hself (hidle hc rfl (settled_finishWork ..).ledger (settled_finishWork ..).desk_self)
  | sends hc hs | messageSends hc hs =>
    exact hof hself (.goesOn hs (ledger_moveCall ..) (hbefore hc)
      (desk_moved ((stageOf_congr hs.calls_going _).trans (stageOf_of_get? hc))))
  | sent hc hs =>
    exact hof hself (.finishes hs (ledger_moveCall ..) (hbefore hc)
      (desk_moved ((stageOf_congr hs.calls_finished _).trans (stageOf_of_get? hc))))
  | unsent hc hs | messageSent hc hs =>
    exact hof hself (.finishes hs (settled_finishWork ..).ledger (hbefore hc)
      (settled_finishWork ..).desk_self)
  | expired hc hb hd =>
    exact hof hself (.breaks (.late (stageOf_of_get? hc) hd)
      ((settled_expire ..).ledger.trans (ledger_dropWork ..)) (settled_expire ..).desk_self)
  | givesUp hc hs | stops hc hs =>
    exact hof hself (.closes rfl hs (ledger_moveCall ..) (hbefore hc)
      (desk_moved ((hs.stageOf _).trans (stageOf_of_get? hc))))
  | gaveUp hc hs =>
    exact hof hself (.closes rfl hs (settled_stopped ..).ledger (hbefore hc)
      (settled_stopped ..).desk_self)
  | stopped hc hs =>
    exact hof hself (.closes rfl hs (settled_finishStop ..).ledger (hbefore hc)
      (settled_finishStop ..).desk_self)
  | read hread habort hrec => exact hof (t := .reader) rfl (.stays (ledger_handle ..) rfl)
  | streamEnded hread | readerAborted hread habort | marked hread =>
    exact hof (t := .reader) rfl (.stays rfl rfl)
  | cleared hread => exact hof (t := .reader) rfl (.stays (ledger_abandonPending s) rfl)
  | @refusalBegun n request log hr =>
    refine hof (t := .refusal n) hself (.stays rfl ?_)
    refine (desk_refusal (Table.get?_set_self ..)).trans ?_
    rw [Session.desk, Session.errand, Session.pen, hr]
    rfl
  | refusalSends hr hs =>
    exact hof hself (.goesOn hs rfl (desk_refusal hr) (desk_refusal (Table.get?_set_self ..)))
  | refusalSent hr hs =>
    exact hof hself (.finishes hs rfl (desk_refusal hr)
      (desk_of_no_refusal (Table.get?_erase_self ..)))
  | @taken n count payload rest stage mailbox hc hs =>
    obtain ⟨hwriting, hafter⟩ := desk_sendingOf hc hs (.writing payload (rest.drop count))
    exact hof hself (.pours count (ledger_moveCall ..) hwriting
      (Eq.trans (desk_moved (stageOf_of_get? hc)) hafter))
  | @refusalTaken n count payload rest hs =>
    exact hof hself (.pours count rfl (desk_refusal (sendingOf_refusal hs))
      (desk_refusal (Table.get?_set_self ..)))
  | exchangeRefused hc | messageRefused hc =>
    exact hof hself (.breaks .refused (settled_finishWork ..).ledger
      (settled_finishWork ..).desk_self)
  | refusalRefused hs =>
    exact hof hself (.breaks .refused rfl (desk_of_no_refusal (Table.get?_erase_self ..)))
  | workDropped hc =>
    exact hof hself (.breaks .dropped (ledger_dropWork ..)
      (desk_of_no_call (Table.get?_erase_self ..)))
  | closingDropped hc hst =>
    exact hof hself (.breaks .dropped rfl (desk_of_no_call (Table.get?_erase_self ..)))
  | dropped hc hw hst =>
    have hnone := errand_of_not_waiting hw hst
    exact hof hself (hidle hc (Prod.ext hnone (pen_of_errand hnone)) rfl
      (desk_of_no_call (Table.get?_erase_self ..)))

theorem turn_stays (hq : s'.queue = s.queue) (hself : s'.errand t = s.errand t)
    (hother : ∀ u, u ≠ t → s'.errand u = s.errand u) : Turn s s' := by
  refine .stays hq fun u => ?_
  by_cases hu : u = t
  · rw [hu, hself]
  · exact hother u hu

theorem turn_taken {rest : List UInt8} (count : Nat) (hq : s'.queue = s.queue)
    (hbefore : s.errand t = some (.writing rest))
    (hafter : s'.errand t = some (.writing (rest.drop count)))
    (hother : ∀ u, u ≠ t → s'.errand u = s.errand u) : Turn s s' := by
  by_cases hdrop : rest.drop count = rest
  · exact turn_stays hq (by rw [hafter, hbefore, hdrop]) hother
  · refine .works hbefore hq hafter ?_ hother
    have hle := List.length_drop (i := count) (l := rest)
    have hne : (rest.drop count).length ≠ rest.length := by
      intro heq
      exact hdrop ((List.drop_sublist count rest).eq_of_length heq)
    simp only [Errand.effort]
    omega

theorem AtWriter.turn (h : AtWriter s e t s') (hdesk : ∀ u, u ≠ t → s'.desk u = s.desk u) :
    Turn s s' := by
  have hother : ∀ u, u ≠ t → s'.errand u = s.errand u := fun u hu => congrArg Prod.fst (hdesk u hu)
  cases h with
  | stays hl hself => exact turn_stays (congrArg Prod.fst hl) (congrArg Prod.fst hself) hother
  | goesOn h hl hbefore hafter =>
    have hq := congrArg Prod.fst hl
    have herrand := congrArg Prod.fst hbefore
    have herrand' := congrArg Prod.fst hafter
    cases h with
    | joins => exact .joins herrand hq herrand' hother
    | takes hw hwriter => exact .works herrand hq herrand' (by simp [Errand.effort]) hother
  | finishes h hl hbefore hafter =>
    cases h <;> exact .leaves (congrArg Prod.fst hl) (congrArg Prod.fst hafter) hother
  | pours count hl hbefore hafter =>
    exact turn_taken count (congrArg Prod.fst hl) (congrArg Prod.fst hbefore)
      (congrArg Prod.fst hafter) hother
  | @closes n closing mid next ht h hl hbefore hafter =>
    subst ht
    have hq := congrArg Prod.fst hl
    have herrand : s.errand (.call n) = closing.errand := congrArg Prod.fst hbefore
    have herrand' : s'.errand (.call n) = next.bind Closing.errand := congrArg Prod.fst hafter
    cases h with
    | joins => exact .joins herrand hq herrand' hother
    | takes hw =>
      refine .leaves hq (herrand'.trans ?_) hother
      cases s.writer <;> rfl
    | abandons =>
      exact turn_stays (hq.trans (congrArg Prod.fst (ledger_abandonPending s)))
        (herrand'.trans herrand.symm) hother
    | _ => exact turn_stays hq (herrand'.trans herrand.symm) hother
  | breaks hcause hl hafter => exact .leaves (congrArg Prod.fst hl) (congrArg Prod.fst hafter) hother

theorem Change.turn (h : Change s e hs s') (hnum : s.Numbered) : Turn s s' := by
  obtain ⟨t, hother, hat⟩ := h.atWriter hnum
  exact hat.turn hother

/-! ## The queue -/

theorem Turn.lined (h : Turn s s') (hl : Lined s) (hnum : s'.Numbered) : Lined s' := by
  have hmem : ∀ {t : Task}, t ∈ s.queue ↔ (s.errand t).isSome = true := hl.queued _
  cases h with
  | stays hq hall =>
    refine ⟨hnum, hq ▸ hl.distinct, fun u => ?_⟩
    rw [hq, hall, hmem]
  | @joins t x hnone hq hself hother =>
    have hnot : t ∉ s.queue := by rw [hmem, hnone]; nofun
    refine ⟨hnum, ?_, fun u => ?_⟩
    · rw [hq, List.nodup_append]
      refine ⟨hl.distinct, by simp, fun a ha b hb => ?_⟩
      rintro rfl
      exact hnot (List.mem_singleton.mp hb ▸ ha)
    · rw [hq, List.mem_append, List.mem_singleton]
      by_cases hu : u = t
      · simp [hu, hself]
      · simp [hu, hother u hu, hmem]
  | @works t x y hbefore hq hself hless hother =>
    refine ⟨hnum, hq ▸ hl.distinct, fun u => ?_⟩
    rw [hq, hmem]
    by_cases hu : u = t
    · simp [hu, hbefore, hself]
    · rw [hother u hu]
  | @leaves t hq hself hother =>
    refine ⟨hnum, hq ▸ hl.distinct.filter _, fun u => ?_⟩
    rw [hq, List.mem_filter, hmem]
    by_cases hu : u = t
    · simp [hu, hself]
    · simp [hu, hother u hu]

theorem Lined.apply (hl : Lined s) (e : Event) : Lined (s.apply e) :=
  ((apply_change s e).turn hl.numbered).lined hl ((apply_change s e).numbered hl.numbered)

theorem Lined.run (hl : Lined s) (events : List Event) : Lined (s.run events) := by
  induction events generalizing s with
  | nil => exact hl
  | cons e events ih => exact ih (hl.apply e)

theorem lined_start (settings : SessionSettings) (filter : DocumentFilter) (label : String)
    (processId now : Nat) : Lined (start settings filter label processId now) := by
  refine ⟨fun _ _ => rfl, List.nodup_nil, fun t => ⟨nofun, fun h => ?_⟩⟩
  cases t with
  | reader => cases h
  | refusal n => cases h
  | call n =>
    -- The only call is the opening handshake, which has not begun.
    cases n with
    | zero => cases h
    | succ n => cases h

/-! ## The work before a task

A measure of how long a task has to wait. Arguments from fairness go down along it. -/

def load (effort : Task → Nat) (t : Task) : List Task → Nat
  | [] => 0
  | u :: rest => effort u + if u = t then 0 else load effort t rest

variable {f g : Task → Nat} {t : Task}

theorem load_le {q : List Task} (h : ∀ u, u ∈ q → g u ≤ f u) : load g t q ≤ load f t q := by
  induction q with
  | nil => exact Nat.le_refl _
  | cons a rest ih =>
    have hhead := h a List.mem_cons_self
    have hrest := ih fun u hu => h u (List.mem_cons_of_mem a hu)
    simp only [load]
    split <;> omega

theorem load_lt {a : Task} {rest : List Task} (h : ∀ u, u ∈ a :: rest → g u ≤ f u)
    (hlt : g a < f a) : load g t (a :: rest) < load f t (a :: rest) := by
  have hrest : load g t rest ≤ load f t rest := load_le fun u hu => h u (List.mem_cons_of_mem a hu)
  simp only [load]
  split <;> omega

theorem load_append {q : List Task} (h : t ∈ q) (p : List Task) :
    load f t (q ++ p) = load f t q := by
  induction q with
  | nil => cases h
  | cons a rest ih =>
    by_cases ha : a = t
    · simp [load, ha]
    · rw [List.cons_append, load, load, ih ((List.mem_cons.mp h).resolve_left (Ne.symm ha))]

theorem load_filter (hu : t ≠ u) (q : List Task) :
    load f t (q.filter (· != u)) ≤ load f t q := by
  induction q with
  | nil => exact Nat.le_refl _
  | cons a rest ih =>
    by_cases ha : a = u
    · rw [List.filter_cons_of_neg (by simp [ha]), load, if_neg (ha ▸ Ne.symm hu)]
      omega
    · rw [List.filter_cons_of_pos (by simp [ha]), load, load]
      split <;> omega

def effort (s : Session) (t : Task) : Nat := (s.errand t).elim 0 Errand.effort

/-- What has to be done at the writer until task `t` is done there. -/
def ahead (s : Session) (t : Task) : Nat := load s.effort t s.queue

theorem effort_congr (h : s'.errand u = s.errand u) : s'.effort u = s.effort u := by
  rw [effort, effort, h]

theorem effort_pos (h : (s.errand u).isSome = true) : 0 < s.effort u := by
  obtain ⟨x, hx⟩ := Option.isSome_iff_exists.mp h
  rw [effort, hx]
  cases x <;> simp [Errand.effort]

/-- As long as a task is in the queue, the work before it does not grow, and it shrinks whenever
something happens to the errand at the head of the queue. -/
theorem Turn.ahead (h : Turn s s') (hl : Lined s) (ht : t ∈ s.queue) (ht' : t ∈ s'.queue) :
    ∃ a, s.queue.head? = some a ∧ (s'.ahead t < s.ahead t ∨
      s'.ahead t = s.ahead t ∧ s'.queue.head? = some a ∧ s'.errand a = s.errand a) := by
  obtain ⟨a, rest, hqueue⟩ := List.exists_cons_of_ne_nil (List.ne_nil_of_mem ht)
  refine ⟨a, by rw [hqueue]; rfl, ?_⟩
  -- Where the errand at the head is untouched it is enough that the work does not grow.
  have hkept : s'.ahead t ≤ s.ahead t → s'.queue.head? = some a → s'.errand a = s.errand a →
      s'.ahead t < s.ahead t ∨
        s'.ahead t = s.ahead t ∧ s'.queue.head? = some a ∧ s'.errand a = s.errand a :=
    fun hle hq ha => (Nat.lt_or_eq_of_le hle).imp_right fun heq => ⟨heq, hq, ha⟩
  cases h with
  | stays hq hall =>
    refine hkept ?_ (by rw [hq, hqueue]; rfl) (hall a)
    rw [Session.ahead, hq]
    exact load_le fun u _ => Nat.le_of_eq (effort_congr (hall u))
  | @joins u x hnone hq hself hother =>
    have hne : ∀ v, v ∈ s.queue → v ≠ u := by
      rintro v hv rfl
      rw [hl.queued, hnone] at hv
      cases hv
    refine hkept ?_ (by rw [hq, hqueue]; rfl) (hother a (hne a (hqueue ▸ List.mem_cons_self)))
    rw [Session.ahead, hq, load_append ht]
    exact load_le fun v hv => Nat.le_of_eq (effort_congr (hother v (hne v hv)))
  | @works u x y hbefore hq hself hless hother =>
    have hle : ∀ v, s'.effort v ≤ s.effort v := by
      intro v
      by_cases hv : v = u
      · rw [hv, effort, effort, hbefore, hself]
        exact Nat.le_of_lt hless
      · exact Nat.le_of_eq (effort_congr (hother v hv))
    by_cases hau : a = u
    · left
      rw [Session.ahead, Session.ahead, hq, hqueue]
      refine load_lt (fun v _ => hle v) ?_
      rw [hau, effort, effort, hbefore, hself]
      exact hless
    · refine hkept ?_ (by rw [hq, hqueue]; rfl) (hother a hau)
      rw [Session.ahead, hq]
      exact load_le fun v _ => hle v
  | @leaves u hq hself hother =>
    have hne : t ≠ u := by
      rintro rfl
      simp [hq] at ht'
    have hle : load s'.effort t s'.queue ≤ load s.effort t (s.queue.filter (· != u)) := by
      rw [hq]
      refine load_le fun v hv => Nat.le_of_eq (effort_congr (hother v ?_))
      simpa using (List.mem_filter.mp hv).2
    by_cases hau : a = u
    · left
      have hrest : load s.effort t (rest.filter (· != u)) ≤ load s.effort t rest :=
        load_filter hne rest
      have hpos : 0 < s.effort a := effort_pos ((hl.queued a).mp (hqueue ▸ List.mem_cons_self))
      rw [hqueue, List.filter_cons_of_neg (by simp [hau])] at hle
      rw [Session.ahead, Session.ahead, hqueue, load, if_neg (hau ▸ Ne.symm hne)]
      omega
    · refine hkept (Nat.le_trans hle (load_filter hne _)) ?_ (hother a hau)
      rw [hq, hqueue, List.filter_cons_of_pos (by simp [hau])]
      rfl

end Session

end LanguageClient
