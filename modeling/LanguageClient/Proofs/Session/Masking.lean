import LanguageClient.Session.Step

/-!
# What the functions of a session do not look at

What has arrived from the server, the notifications that wait to be fetched and the count of the
server's requests are the *intake* of a session. What has been told so far is its log. Neither is of
any interest to the functions that a session is made of, the reader's own apart: each of them does the
same to a session with another intake and another past (`masked`), adds the same lines to the log, and
leaves the intake as it is.

There is one such lemma for each function, so that whoever compares two runs of a session need not
look into any of them.
-/

namespace LanguageClient.Session

/-- What has come from the server, and has not gone its way. -/
structure Intake where
  inbox : Frame.Stream
  notices : List Rpc.Notification
  receiver : Receiver
  nextRefusal : Nat

def intake (s : Session) : Intake := ⟨s.inbox, s.notices, s.receiver, s.nextRefusal⟩

def withIntake (s : Session) (i : Intake) : Session :=
  { s with
    inbox := i.inbox, notices := i.notices, receiver := i.receiver, nextRefusal := i.nextRefusal }

def preface (s : Session) (told : List Log.Event) : Session := { s with log := told ++ s.log }

/-- What can be put over a session without anybody noticing. -/
structure Mask where
  intake : Intake
  /-- What has been told before. -/
  told : List Log.Event

def masked (s : Session) (v : Mask) : Session := (s.withIntake v.intake).preface v.told

variable (s : Session) (v : Mask) (n : Nat)

/-! ## Updates -/

@[simp] theorem calls_masked : (s.masked v).calls = s.calls := rfl
@[simp] theorem refusals_masked : (s.masked v).refusals = s.refusals := rfl
@[simp] theorem settings_masked : (s.masked v).settings = s.settings := rfl
@[simp] theorem state_masked : (s.masked v).state = s.state := rfl
@[simp] theorem reader_masked : (s.masked v).reader = s.reader := rfl
@[simp] theorem welcome_masked : (s.masked v).welcome = s.welcome := rfl
@[simp] theorem inFlight_masked : (s.masked v).inFlight = s.inFlight := rfl

theorem note_masked (level : Log.Level) (message : String) (fields : List (String × Log.Value)) :
    (s.masked v).note level message fields = (s.note level message fields).masked v := by
  simp [note, masked, preface, withIntake]

theorem noteServer_masked (level : Log.Level) (message : String)
    (fields : List (String × Log.Value)) (introduction : Handshake.Introduction) :
    (s.masked v).noteServer level message fields introduction =
      (s.noteServer level message fields introduction).masked v := by
  simp [noteServer, masked, preface, withIntake]

theorem setState_masked (next : SessionState) :
    (s.masked v).setState next = (s.setState next).masked v :=
  note_masked { s with state := next } v _ _ _

theorem moveCall_masked (stage : Stage) :
    (s.masked v).moveCall n stage = (s.moveCall n stage).masked v := by
  unfold moveCall
  simp only [calls_masked]
  split <;> rfl

theorem clearMailbox_masked : (s.masked v).clearMailbox n = (s.clearMailbox n).masked v := by
  unfold clearMailbox
  simp only [calls_masked]
  split <;> rfl

theorem deliver_masked (reply : Reply) :
    (s.masked v).deliver n reply = (s.deliver n reply).masked v := by
  unfold deliver
  simp only [calls_masked]
  split <;> rfl

theorem abandonPending_masked : (s.masked v).abandonPending = s.abandonPending.masked v := by
  unfold abandonPending
  refine @List.foldl_hom _ _ _ (masked · v) _ _ _ { s with pending := {} } fun s e => ?_
  exact deliver_masked s v e.2 .abandoned

theorem finishCall_masked (outcome : Outcome) :
    (s.masked v).finishCall n outcome = (s.finishCall n outcome).masked v :=
  moveCall_masked s v n _

theorem startMessage_masked (method : String) (params : Option Json) (deadline : Option Nat)
    (purpose : Purpose) :
    (s.masked v).startMessage n method params deadline purpose =
      (s.startMessage n method params deadline purpose).masked v := by
  simp only [startMessage, note_masked, moveCall_masked]

theorem giveUp_masked (e : SessionError) :
    (s.masked v).giveUp n e = (s.giveUp n e).masked v := by
  simp only [giveUp, note_masked, moveCall_masked]

/-! ## Calls -/

theorem finishWork_masked (deadline : Option Nat) (purpose : Purpose)
    (result : Except SessionError Json) :
    (s.masked v).finishWork n deadline purpose result =
      (s.finishWork n deadline purpose result).masked v := by
  cases purpose with
  | answer | message outcome => cases result <;> exact finishCall_masked s v n _
  | introduce =>
    cases result with
    | error e => exact giveUp_masked s v n _
    | ok value =>
      simp only [finishWork, settings_masked]
      split
      · exact giveUp_masked s v n _
      · rw [noteServer_masked, startMessage_masked]
  | confirm introduction =>
    cases result with
    | error e => exact giveUp_masked s v n _
    | ok value =>
      simp only [finishWork, noteServer_masked]
      -- The label and the introduction are not under the mask.
      exact (congrArg (finishCall · n .started) (setState_masked
        { s.noteServer .info "language session running" [("transport", .text s.label)] introduction
          with introduction := some introduction } v .running)).trans (finishCall_masked _ v n _)
  | shutdown =>
    cases result with
    | error e => simp only [finishWork, note_masked, startMessage_masked]
    | ok value => exact startMessage_masked s v n _ _ _ _
  | leave outcome =>
    cases result with
    | error e => simp only [finishWork, note_masked, moveCall_masked]
    | ok value => exact moveCall_masked s v n _

theorem expire_masked (purpose : Purpose) :
    (s.masked v).expire n purpose = (s.expire n purpose).masked v := by
  unfold expire
  split
  · exact giveUp_masked s v n _
  · exact giveUp_masked s v n _
  · exact finishWork_masked s v n _ _ _

theorem drainCheck_masked (previous : SessionState) (deadline : Nat) :
    (s.masked v).drainCheck n previous deadline = (s.drainCheck n previous deadline).masked v := by
  simp only [drainCheck, inFlight_masked, note_masked, moveCall_masked,
    apply_ite fun s : Session => s.masked v]
  rfl

theorem openCall_masked (ask : Ask) :
    (s.masked v).openCall n ask = (s.openCall n ask).masked v := by
  unfold openCall
  split
  · rw [setState_masked]
    exact moveCall_masked (s.setState .starting) v n _
  · simp only [state_masked, note_masked, finishCall_masked, setState_masked, moveCall_masked]
    split <;> rfl
  · simp only [welcome_masked]
    split
    · exact moveCall_masked s v n _
    · exact finishCall_masked s v n _

theorem proceed_masked (ask : Ask) :
    (s.masked v).proceed n ask = (s.proceed n ask).masked v := by
  cases ask with
  | request method params => exact moveCall_masked s v n _
  | notify method params => exact startMessage_masked s v n _ _ _ _
  | document event =>
    have hsame : (s.masked v).documents.offer (s.masked v).filter event =
        s.documents.offer s.filter event := rfl
    unfold proceed
    dsimp only
    rw [hsame]
    cases s.documents.offer s.filter event with
    | mk routed documents =>
      cases routed with
      | forwarded => exact startMessage_masked { s with documents } v n _ _ _ _
      | ignored => exact finishCall_masked { s with documents } v n _
  | opening => rfl
  | stop => rfl

/-! ## Sending, exchanging, closing -/

def Progress.masked {α : Type} (v : Mask) : Progress α → Progress α
  | .blocked => .blocked
  | .going s next => .going (s.masked v) next
  | .finished s result => .finished (s.masked v) result

theorem sendStep_masked (t : Task) (sending : Sending) :
    (s.masked v).sendStep t sending = (s.sendStep t sending).masked v := by
  cases sending with
  | fresh payload => rfl
  | queued payload =>
    simp only [sendStep, apply_ite (Progress.masked v)]
    rfl
  | writing payload rest => cases rest <;> rfl

theorem exchangeStep_masked (mailbox : Option Reply) (exchange : Exchange) :
    (s.masked v).exchangeStep n mailbox exchange =
      (s.exchangeStep n mailbox exchange).masked v := by
  cases exchange with
  | fresh method params =>
    simp only [exchangeStep, clearMailbox_masked]
    rfl
  | registered request id =>
    simp only [exchangeStep, note_masked, apply_ite (Progress.masked v)]
    rfl
  | sending id sending =>
    simp only [exchangeStep, sendStep_masked]
    cases s.sendStep (.call n) sending with
    | blocked => rfl
    | going mid next => rfl
    | finished mid result => cases result <;> rfl
  | awaiting id => cases mailbox <;> rfl

theorem workStep_masked (mailbox : Option Reply) (work : Work) :
    (s.masked v).workStep n mailbox work = (s.workStep n mailbox work).masked v := by
  cases work with
  | exchange exchange =>
    simp only [workStep, exchangeStep_masked]
    cases s.exchangeStep n mailbox exchange <;> rfl
  | send sending =>
    simp only [workStep, sendStep_masked]
    cases s.sendStep (.call n) sending <;> rfl

theorem dropWork_masked (t : Task) (work : Work) :
    (s.masked v).dropWork t work = (s.dropWork t work).masked v := by
  cases work with
  | exchange exchange => cases exchange <;> rfl
  | send sending => rfl

theorem closeStep_masked (closing : Closing) :
    (s.masked v).closeStep n closing =
      (s.closeStep n closing).map fun r => (r.1.masked v, r.2) := by
  cases closing with
  | queued | joining =>
    simp only [closeStep,
      apply_ite (Option.map fun r : Session × Option Closing => (r.1.masked v, r.2))]
    rfl
  | shutting =>
    cases hfailure : s.closeFailure with
    | none =>
      have hfailure' : (s.masked v).closeFailure = none := hfailure
      simp only [closeStep, hfailure, hfailure']
      rfl
    | some cause =>
      have hfailure' : (s.masked v).closeFailure = some cause := hfailure
      simp only [closeStep, hfailure, hfailure', note_masked]
      rfl
  | abandoning =>
    simp only [closeStep, abandonPending_masked, note_masked, inFlight_masked,
      apply_ite (Option.map fun r : Session × Option Closing => (r.1.masked v, r.2))]
    rfl
  | _ => rfl

/-! ## Steps -/

theorem callStep_masked : (s.masked v).callStep n = (s.callStep n).map (·.masked v) := by
  unfold callStep
  simp only [calls_masked]
  cases hc : s.calls.get? n with
  | none => rfl
  | some c =>
    obtain ⟨stage, mailbox⟩ := c
    cases stage with
    | fresh ask => exact congrArg some (openCall_masked s v n ask)
    | admitted ask => exact congrArg some (proceed_masked s v n ask)
    | working work deadline purpose =>
      simp only [workStep_masked]
      cases s.workStep n mailbox work with
      | blocked =>
        cases deadline with
        | none => rfl
        | some d =>
          simp only [Progress.masked, dropWork_masked, expire_masked,
            apply_ite (Option.map fun s : Session => s.masked v)]
          rfl
      | going mid next => exact congrArg some (moveCall_masked mid v n _)
      | finished mid result => exact congrArg some (finishWork_masked mid v n _ _ _)
    | draining previous deadline wakeAt =>
      simp only [drainCheck_masked, apply_ite (Option.map fun s : Session => s.masked v)]
      rfl
    | drained previous =>
      simp only [startExchange, moveCall_masked,
        apply_ite (Option.map fun s : Session => s.masked v)]
      rfl
    | givingUp closing e =>
      simp only [closeStep_masked]
      cases s.closeStep n closing with
      | none => rfl
      | some r =>
        obtain ⟨mid, next⟩ := r
        cases next with
        | none => simp only [Option.map_some, setState_masked, finishCall_masked]
        | some next => exact congrArg some (moveCall_masked mid v n _)
    | ending closing result =>
      simp only [closeStep_masked]
      cases s.closeStep n closing with
      | none => rfl
      | some r =>
        obtain ⟨mid, next⟩ := r
        cases next with
        | none =>
          simp only [Option.map_some, finishStop, setState_masked, note_masked, finishCall_masked]
        | some next => exact congrArg some (moveCall_masked mid v n _)
    | _ => rfl

theorem readerStep_masked (hreader : s.reader ≠ .reading) :
    (s.masked v).readerStep = s.readerStep.map (·.masked v) := by
  unfold readerStep
  simp only [reader_masked]
  cases hr : s.reader with
  | reading => exact absurd hr hreader
  | marking => rfl
  | clearing =>
    simp only [abandonPending_masked, state_masked]
    by_cases hstate : s.abandonPending.state = .running
    · rw [if_pos hstate, if_pos hstate]
      exact congrArg some (note_masked { s.abandonPending with reader := .ended } v _ _ _)
    · rw [if_neg hstate, if_neg hstate]
      rfl
  | ended => rfl

theorem refusalStep_masked : (s.masked v).refusalStep n = (s.refusalStep n).map (·.masked v) := by
  unfold refusalStep
  simp only [refusals_masked]
  cases s.refusals.get? n with
  | none => rfl
  | some stage =>
    cases stage with
    | fresh r =>
      simp only [note_masked]
      rfl
    | sending sending =>
      simp only [sendStep_masked]
      cases s.sendStep (.refusal n) sending with
      | blocked => rfl
      | going mid next => rfl
      | finished mid result =>
        cases result with
        | ok value => rfl
        | error e =>
          simp only [Progress.masked, note_masked]
          rfl

theorem sendingOf_masked (t : Task) : (s.masked v).sendingOf t = s.sendingOf t := by
  cases t <;> rfl

theorem accept_masked (t : Task) (count : Nat) :
    (s.masked v).accept t count = (s.accept t count).masked v := by
  unfold accept
  rw [sendingOf_masked]
  cases s.sendingOf t with
  | none => rfl
  | some sending =>
    cases sending with
    | fresh payload => rfl
    | queued payload => rfl
    | writing payload rest =>
      cases t with
      | call n =>
        dsimp only [calls_masked]
        cases s.calls.get? n with
        | none => rfl
        | some c => exact moveCall_masked { s with wire := s.wire ++ rest.take count } v n _
      | reader => rfl
      | refusal n => rfl

theorem refuse_masked (t : Task) (cause : IoError) :
    (s.masked v).refuse t cause = (s.refuse t cause).masked v := by
  unfold refuse
  rw [sendingOf_masked]
  cases s.sendingOf t with
  | none => rfl
  | some sending =>
    cases sending with
    | fresh payload => rfl
    | queued payload => rfl
    | writing payload rest =>
      cases t with
      | call n =>
        dsimp only [calls_masked]
        cases s.calls.get? n with
        | none => rfl
        | some c =>
          obtain ⟨stage, mailbox⟩ := c
          cases stage with
          | working work deadline purpose =>
            dsimp only
            rw [dropWork_masked]
            exact finishWork_masked _ v n _ _ _
          | _ => rfl
      | reader => rfl
      | refusal n =>
        have hleave : (s.masked v).leaveQueue (.refusal n) =
            (s.leaveQueue (.refusal n)).masked v := rfl
        simp only [hleave, note_masked]
        rfl

theorem dropCall_masked : (s.masked v).dropCall n = (s.dropCall n).masked v := by
  unfold dropCall
  simp only [calls_masked]
  cases s.calls.get? n with
  | none => rfl
  | some c =>
    obtain ⟨stage, mailbox⟩ := c
    cases stage with
    | working work deadline purpose =>
      simp only [dropWork_masked]
      rfl
    | givingUp closing e => cases closing <;> rfl
    | ending closing result => cases closing <;> rfl
    | _ => rfl

/-! ## Events -/

/-- Whether an event happens inside the session: it neither comes from the server nor is it about the
notifications. -/
def Event.isInner : Event → Bool
  | .arrive _ | .endStream _ | .takeNotices | .fetchNotices | .discardNotices => false
  | _ => true

/-- What happens inside a session is the same under a mask, unless the reader reads. -/
theorem apply_masked {e : Event} (hinner : e.isInner = true)
    (hread : e = .step .reader → s.reader ≠ .reading) :
    (s.masked v).apply e = (s.apply e).masked v := by
  have hstep : ∀ t, (s.masked v).step t = (s.step t).map (·.masked v) →
      (s.masked v).apply (.step t) = (s.apply (.step t)).masked v := by
    intro t ht
    rw [apply, ht, apply]
    cases s.step t <;> rfl
  cases e with
  | call n ask =>
    simp only [apply, calls_masked]
    split <;> rfl
  | step t =>
    refine hstep t ?_
    cases t with
    | call n => exact callStep_masked s v n
    | reader => exact readerStep_masked s v (hread rfl)
    | refusal n => exact refusalStep_masked s v n
  | accept t count => exact accept_masked s v t count
  | refuse t cause => exact refuse_masked s v t cause
  | pass nanos => rfl
  | drop n => exact dropCall_masked s v n
  | _ => cases hinner

/-- What happens inside a session is the same with another intake, unless the reader reads. -/
theorem apply_withIntake (i : Intake) {e : Event} (hinner : e.isInner = true)
    (hread : e = .step .reader → s.reader ≠ .reading) :
    (s.withIntake i).apply e = (s.apply e).withIntake i :=
  apply_masked s ⟨i, []⟩ hinner hread

theorem intake_apply {e : Event} (hinner : e.isInner = true)
    (hread : e = .step .reader → s.reader ≠ .reading) : (s.apply e).intake = s.intake := by
  have hsame : s.apply e = (s.apply e).withIntake s.intake :=
    apply_withIntake s s.intake hinner hread
  rw [hsame]
  rfl

end LanguageClient.Session
