import LanguageClient.Proofs.Session.Changes

/-!
# What an event leaves alone

An event is about one task at most. Whatever it does to that task, it leaves all other calls at their
stages and all other refusals where they are; all that can happen to another call is that a reply is
put into its mailbox. The main results are `Change.stageOf` and `Change.refusals`.

Most steps of a call only move the call itself, to a stage from which it has business with nobody
(`Settled`). That is shown here once for each function of `Session/Step.lean`.
-/

namespace LanguageClient

/-- Whether a call at this stage has no request under way and neither has nor wants the writer. -/
def Stage.atRest : Stage → Bool
  | .working (.exchange (.fresh _ _)) _ _ => true
  | .working (.send (.fresh _)) _ _ => true
  | .working _ _ _ => false
  | .givingUp .queued _ | .ending .queued _ => false
  | _ => true

/-- Whether a call at this stage has the writer and is about to close the stream. -/
def Stage.shuts : Stage → Bool
  | .givingUp .shutting _ | .ending .shutting _ => true
  | _ => false

namespace Session

def Event.isOf (t : Task) : Event → Bool
  | .call n _ | .drop n => t == .call n
  | .step u | .accept u _ | .refuse u _ => t == u
  | _ => false

def stageOf (s : Session) (n : Nat) : Option Stage := (s.calls.get? n).map (·.stage)

variable {s s' mid : Session} {n m : Nat} {result : Except SessionError Json} {closing : Closing}
  {hs : List Happening}

/-! ## Calls that settle

Most functions end with a call at a stage where it has no request and nothing to do with the writer.
`Settled` says that and no more, which is all that other calls need to know about it. -/

/-- `s'` is `s` but for what the session is like as a whole and what it tells. -/
def Aside (s s' : Session) : Prop :=
  s' = { s with
    state := s'.state, documents := s'.documents, introduction := s'.introduction, log := s'.log }

/-- All that has happened to tasks is that call `n` has moved to a stage of rest. -/
def Settled (s : Session) (n : Nat) (s' : Session) : Prop :=
  ∃ mid stage, Aside s mid ∧ stage.atRest = true ∧ s' = mid.moveCall n stage

variable {stage : Stage} {t : Task} {sending : Sending} {e : Event}

theorem settled_moveCall (haside : Aside s mid) (hrest : stage.atRest = true) :
    Settled s n (mid.moveCall n stage) :=
  ⟨mid, stage, haside, hrest, rfl⟩

theorem settled_finishWork (s : Session) (n : Nat) (deadline : Option Nat) (purpose : Purpose)
    (result : Except SessionError Json) : Settled s n (s.finishWork n deadline purpose result) := by
  cases purpose with
  | answer | message outcome | confirm introduction | shutdown | leave outcome =>
    cases result <;> exact settled_moveCall rfl rfl
  | introduce =>
    cases result with
    | error e => exact settled_moveCall rfl rfl
    | ok v =>
      rw [finishWork]
      split <;> exact settled_moveCall rfl rfl

theorem settled_expire (s : Session) (n : Nat) (purpose : Purpose) :
    Settled s n (s.expire n purpose) := by
  cases purpose with
  | introduce => exact settled_moveCall rfl rfl
  | confirm introduction => exact settled_moveCall rfl rfl
  | _ =>
    rw [expire]
    · exact settled_finishWork ..
    all_goals nofun

theorem settled_openCall (s : Session) (n : Nat) (ask : Ask) : Settled s n (s.openCall n ask) := by
  cases ask with
  | opening => exact settled_moveCall rfl rfl
  | stop =>
    rw [openCall]
    split <;> exact settled_moveCall rfl rfl
  | _ =>
    rw [openCall]
    cases s.welcome <;> exact settled_moveCall rfl rfl
    all_goals nofun

theorem settled_proceed {ask : Ask} {mailbox : Option Reply} (hc : s.At n (.admitted ask) mailbox) :
    Settled s n (s.proceed n ask) := by
  have hstay : s = s.moveCall n (.admitted ask) := by
    rw [moveCall, hc]
    dsimp only
    rw [Table.set_of_get? hc]
  cases ask with
  | opening => exact ⟨s, _, rfl, rfl, hstay⟩
  | stop => exact ⟨s, _, rfl, rfl, hstay⟩
  | request method params => exact settled_moveCall rfl rfl
  | notify method params => exact settled_moveCall rfl rfl
  | document event =>
    rw [proceed]
    dsimp only
    split <;> exact settled_moveCall rfl rfl

theorem settled_drainCheck (s : Session) (n : Nat) (previous : SessionState) (deadline : Nat) :
    Settled s n (s.drainCheck n previous deadline) := by
  rw [drainCheck]
  split
  · exact settled_moveCall rfl rfl
  · split <;> exact settled_moveCall rfl rfl

theorem settled_stopped (s : Session) (n : Nat) (outcome : Outcome) :
    Settled s n ((s.setState .stopped).finishCall n outcome) :=
  settled_moveCall rfl rfl

theorem settled_finishStop (s : Session) (n : Nat) (result : Except SessionError Unit) :
    Settled s n (s.finishStop n result) :=
  settled_moveCall rfl rfl

/-! ## The stages of the calls

One equation for each update. It follows that an event is about one call at most. -/

theorem stageOf_of_get? {c : Call} (hc : s.calls.get? n = some c) :
    s.stageOf n = some c.stage := by
  rw [stageOf, hc]
  rfl

theorem exists_at (h : s.stageOf n = some stage) :
    ∃ mailbox, s.At n stage mailbox := by
  obtain ⟨⟨stage', mailbox⟩, hc, rfl⟩ := Option.map_eq_some_iff.mp h
  exact ⟨mailbox, hc⟩

/-- A session begins with one call, its handshake. -/
theorem stageOf_start_eq_some {settings : SessionSettings} {filter : DocumentFilter}
    {label : String} {processId now n : Nat} {stage : Stage}
    (h : (start settings filter label processId now).stageOf n = some stage) :
    n = 0 ∧ stage = .fresh .opening := by
  rw [stageOf, start, Table.get?, Table.lookup_cons] at h
  split at h
  · next hn => exact ⟨hn, (Option.some.inj h).symm⟩
  · cases h

theorem stageOf_congr (h : s'.calls = s.calls) (m : Nat) : s'.stageOf m = s.stageOf m := by
  rw [stageOf, h]
  rfl

theorem stageOf_setCall (s : Session) (n m : Nat) (c : Call) :
    stageOf { s with calls := s.calls.set n c } m = if m = n then some c.stage else s.stageOf m := by
  rw [stageOf, Table.get?_set]
  split <;> rfl

theorem stageOf_eraseCall (s : Session) (n m : Nat) :
    stageOf { s with calls := s.calls.erase n } m = if m = n then none else s.stageOf m := by
  rw [stageOf, Table.get?_erase]
  split <;> rfl

theorem stageOf_moveCall (s : Session) (n m : Nat) (stage : Stage) :
    (s.moveCall n stage).stageOf m =
      if m = n then (s.stageOf n).map fun _ => stage else s.stageOf m := by
  cases hc : s.calls.get? n with
  | none =>
    rw [moveCall, hc]
    by_cases hm : m = n
    · rw [if_pos hm, hm, stageOf, hc]
      rfl
    · rw [if_neg hm]
  | some c =>
    rw [moveCall, hc, stageOf_of_get? hc]
    exact stageOf_setCall s n m { c with stage }

theorem stageOf_moved {next : Stage} (h : mid.stageOf n = some stage) :
    (mid.moveCall n next).stageOf n = some next := by
  rw [stageOf_moveCall, if_pos rfl, h]
  rfl

theorem stageOf_clearMailbox (s : Session) (n : Nat) :
    (s.clearMailbox n).stageOf n = s.stageOf n := by
  cases hc : s.calls.get? n with
  | none => rw [clearMailbox, hc]
  | some c =>
    rw [clearMailbox, hc, stageOf_of_get? hc]
    exact (stageOf_setCall s n n _).trans (if_pos rfl)

theorem stageOf_deliver (s : Session) (n m : Nat) (reply : Reply) :
    (s.deliver n reply).stageOf m = s.stageOf m := by
  cases hc : s.calls.get? n with
  | none => rw [deliver, hc]
  | some c =>
    rw [deliver, hc, stageOf_setCall]
    by_cases hm : m = n
    · rw [if_pos hm, hm, stageOf, hc]
      rfl
    · rw [if_neg hm]

theorem stageOf_abandonPending (s : Session) (m : Nat) :
    s.abandonPending.stageOf m = s.stageOf m := by
  have hfold : ∀ (es : List (Nat × Nat)) (s : Session),
      (es.foldl (fun s e => s.deliver e.2 .abandoned) s).stageOf m = s.stageOf m := by
    intro es
    induction es with
    | nil => exact fun _ => rfl
    | cons e rest ih => exact fun s => (ih _).trans (stageOf_deliver s e.2 m .abandoned)
  exact hfold _ _

theorem stageOf_complete (s : Session) (response : Rpc.Response) (m : Nat) :
    (s.complete response).stageOf m = s.stageOf m := by
  rw [complete]
  split
  · rfl
  · split
    · exact stageOf_deliver _ _ _ _
    · rfl

theorem stageOf_handle (s : Session) (payload : List UInt8) (m : Nat) :
    (s.handle payload).stageOf m = s.stageOf m := by
  rw [handle]
  split
  · exact stageOf_complete s _ m
  · rfl
  · split <;> rfl
  · rfl

theorem Settled.stageOf_ne (h : Settled s n s') (hm : m ≠ n) : s'.stageOf m = s.stageOf m := by
  obtain ⟨mid, stage, haside, -, rfl⟩ := h
  rw [stageOf_moveCall, if_neg hm, haside]
  rfl

theorem Sends.calls_going {next : Sending} (h : Sends s t sending (.going mid next)) :
    mid.calls = s.calls := by
  cases h <;> rfl

theorem Sends.calls_finished (h : Sends s t sending (.finished mid result)) :
    mid.calls = s.calls := by
  cases h <;> rfl

theorem Closes.stageOf {next : Option Closing} (h : Closes s n closing mid next) (m : Nat) :
    mid.stageOf m = s.stageOf m := by
  cases h with
  | abandons => exact stageOf_abandonPending s m
  | _ => rfl

theorem dropWork_eq (s : Session) (t : Task) (work : Work) :
    ∃ pending, s.dropWork t work = { s.leaveQueue t with pending } := by
  cases work with
  | exchange exchange => cases exchange <;> exact ⟨_, rfl⟩
  | send sending => exact ⟨_, rfl⟩

theorem calls_dropWork (s : Session) (t : Task) (work : Work) :
    (s.dropWork t work).calls = s.calls := by
  obtain ⟨pending, h⟩ := dropWork_eq s t work
  rw [h]
  rfl

/-- An event leaves the stages of all calls alone but that of the call that it is about. -/
theorem Change.stageOf (h : Change s e hs s') (he : e.isOf (.call m) = false) :
    s'.stageOf m = s.stageOf m := by
  have hne : ∀ {n : Nat}, ((Task.call m == Task.call n) = false) → m ≠ n := by
    rintro n hn rfl
    simp at hn
  have hmoved : ∀ {mid : Session} {n : Nat} {stage : Stage}, m ≠ n → mid.stageOf m = s.stageOf m →
      (mid.moveCall n stage).stageOf m = s.stageOf m := by
    intro mid n stage hm hmid
    rw [stageOf_moveCall, if_neg hm, hmid]
  cases h with
  | idle => rfl
  | outside hnow => rfl
  | called hc => rw [stageOf_setCall, if_neg (hne he)]
  | opened hc => exact (settled_openCall ..).stageOf_ne (hne he)
  | proceeded hc => exact (settled_proceed hc).stageOf_ne (hne he)
  | looked hc hw => exact (settled_drainCheck ..).stageOf_ne (hne he)
  | leaves hc hup | ends hc hup | tested hc hup | taken hc hs => exact hmoved (hne he) rfl
  | registered hc => exact (stageOf_setCall s _ m _).trans (if_neg (hne he))
  | foundHungUp hc hup | replied hc | exchangeRefused hc | messageRefused hc =>
    exact (settled_finishWork ..).stageOf_ne (hne he)
  | sends hc hs | messageSends hc hs => exact hmoved (hne he) (stageOf_congr hs.calls_going m)
  | sent hc hs => exact hmoved (hne he) (stageOf_congr hs.calls_finished m)
  | unsent hc hs | messageSent hc hs =>
    exact ((settled_finishWork ..).stageOf_ne (hne he)).trans (stageOf_congr hs.calls_finished m)
  | expired hc hb hd =>
    exact ((settled_expire ..).stageOf_ne (hne he)).trans (stageOf_congr (calls_dropWork ..) m)
  | givesUp hc hs | gaveUp hc hs | stops hc hs | stopped hc hs =>
    exact hmoved (hne he) (hs.stageOf m)
  | read hread habort hrec => exact stageOf_handle ..
  | streamEnded hread => rfl
  | readerAborted hread habort => rfl
  | marked hread => rfl
  | cleared hread => exact stageOf_abandonPending s m
  | refusalBegun hr => rfl
  | refusalSends hr hs => exact stageOf_congr hs.calls_going m
  | refusalSent hr hs => exact stageOf_congr hs.calls_finished m
  | refusalTaken hs => rfl
  | refusalRefused hs => rfl
  | workDropped hc | closingDropped hc hst | dropped hc hw hst =>
    exact (stageOf_eraseCall s _ m).trans (if_neg (hne he))

/-! ## Everything but calls

Each update as an equation between sessions that differ in few fields: the other fields then agree
by definition. -/

theorem moveCall_eq (s : Session) (n : Nat) (stage : Stage) :
    ∃ calls, s.moveCall n stage = { s with calls } := by
  cases hc : s.calls.get? n with
  | none => exact ⟨s.calls, by rw [moveCall, hc]⟩
  | some c => exact ⟨s.calls.set n { c with stage }, by rw [moveCall, hc]⟩

theorem deliver_eq (s : Session) (n : Nat) (reply : Reply) :
    ∃ calls, s.deliver n reply = { s with calls } := by
  cases hc : s.calls.get? n with
  | none => exact ⟨s.calls, by rw [deliver, hc]⟩
  | some c => exact ⟨s.calls.set n { c with mailbox := some reply }, by rw [deliver, hc]⟩

theorem abandonPending_eq (s : Session) :
    ∃ calls, s.abandonPending = { s with calls, pending := {} } := by
  unfold abandonPending
  refine List.foldlRecOn (motive := fun t : Session => ∃ calls, t = { s with calls, pending := {} })
    _ _ ⟨s.calls, rfl⟩ ?_
  rintro _ ⟨calls, rfl⟩ e -
  exact deliver_eq { s with calls, pending := {} } e.2 .abandoned

theorem complete_eq (s : Session) (response : Rpc.Response) :
    ∃ calls pending log, s.complete response = { s with calls, pending, log } := by
  rw [complete]
  split
  · exact ⟨_, _, _, rfl⟩
  · next id hid =>
    split
    · next n hn =>
      obtain ⟨calls, h⟩ := deliver_eq { s with pending := s.pending.erase id.toNat } n
        (.answered response)
      exact ⟨calls, _, _, h⟩
    · exact ⟨_, _, _, rfl⟩

theorem handle_eq (s : Session) (payload : List UInt8) :
    ∃ calls pending log refusals nextRefusal notices,
      s.handle payload = { s with calls, pending, log, refusals, nextRefusal, notices } := by
  rw [handle]
  split
  · next response _ =>
    obtain ⟨calls, pending, log, h⟩ := complete_eq s response
    exact ⟨calls, pending, log, _, _, _, h⟩
  · exact ⟨_, _, _, _, _, _, rfl⟩
  · split <;> exact ⟨_, _, _, _, _, _, rfl⟩
  · exact ⟨_, _, _, _, _, _, rfl⟩

theorem Settled.eq (h : Settled s n s') : ∃ calls state documents introduction log,
    s' = { s with calls, state, documents, introduction, log } := by
  obtain ⟨mid, stage, haside, -, rfl⟩ := h
  obtain ⟨calls, hmove⟩ := moveCall_eq mid n stage
  refine ⟨calls, mid.state, mid.documents, mid.introduction, mid.log, ?_⟩
  rw [hmove, haside]

/-! ## What is not changed in passing

Settings, documents, the writer, the client's end of the stream and the refusals are one record, so
that one case analysis (`Change.refit`) speaks for all of them. -/

/-- What a session has that most events do not touch. -/
structure Fixtures where
  settings : SessionSettings
  filter : DocumentFilter
  documents : OpenDocuments
  writer : Bool
  closed : Bool
  refusals : Table RefusalStage
  nextRefusal : Nat

def fixtures (s : Session) : Fixtures :=
  ⟨s.settings, s.filter, s.documents, s.writer, s.closed, s.refusals, s.nextRefusal⟩

theorem fixtures_moveCall (s : Session) (n : Nat) (stage : Stage) :
    (s.moveCall n stage).fixtures = s.fixtures := by
  obtain ⟨calls, heq⟩ := moveCall_eq s n stage
  rw [heq]
  rfl

theorem fixtures_abandonPending (s : Session) : s.abandonPending.fixtures = s.fixtures := by
  obtain ⟨calls, heq⟩ := abandonPending_eq s
  rw [heq]
  rfl

theorem fixtures_dropWork (s : Session) (t : Task) (work : Work) :
    (s.dropWork t work).fixtures = s.fixtures := by
  obtain ⟨pending, heq⟩ := dropWork_eq s t work
  rw [heq]
  rfl

theorem Sends.fixtures_going {next : Sending} (h : Sends s t sending (.going mid next)) :
    mid.fixtures = s.fixtures := by
  cases h <;> rfl

theorem Sends.fixtures_finished (h : Sends s t sending (.finished mid result)) :
    mid.fixtures = s.fixtures := by
  cases h <;> rfl

theorem Closes.fixtures_finished (h : Closes s n closing mid none) : mid.fixtures = s.fixtures := by
  cases h with
  | abandons => exact fixtures_abandonPending s

theorem fixtures_finishWork (s : Session) (n : Nat) (deadline : Option Nat) (purpose : Purpose)
    (result : Except SessionError Json) :
    (s.finishWork n deadline purpose result).fixtures = s.fixtures := by
  cases purpose with
  | introduce =>
    cases result with
    | error e => exact fixtures_moveCall ..
    | ok v =>
      rw [finishWork]
      split <;> exact fixtures_moveCall ..
  | _ => cases result <;> exact fixtures_moveCall ..

theorem fixtures_expire (s : Session) (n : Nat) (purpose : Purpose) :
    (s.expire n purpose).fixtures = s.fixtures := by
  cases purpose with
  | introduce | confirm introduction => exact fixtures_moveCall ..
  | _ => exact fixtures_finishWork ..

theorem fixtures_openCall (s : Session) (n : Nat) (ask : Ask) :
    (s.openCall n ask).fixtures = s.fixtures := by
  unfold openCall
  split
  · exact fixtures_moveCall ..
  · split <;> exact fixtures_moveCall ..
  · split <;> exact fixtures_moveCall ..

theorem fixtures_drainCheck (s : Session) (n : Nat) (previous : SessionState) (deadline : Nat) :
    (s.drainCheck n previous deadline).fixtures = s.fixtures := by
  rw [drainCheck]
  split
  · exact fixtures_moveCall ..
  · split <;> exact fixtures_moveCall ..

/-- What an event can do to the fixtures: nothing; or a document call offers its event; or a call
takes the writer away, and closes the stream next if the writer was there; or the stream is closed; or
a refusal gets on, or is added. -/
inductive Refit (s : Session) (e : Event) (s' : Session) : Prop where
  | kept (hsame : s'.fixtures = s.fixtures)
  | offered {n : Nat} {event : DocumentEvent} (documents : OpenDocuments) (he : e = .step (.call n))
      (hn : s.stageOf n = some (.admitted (.document event)))
      (hsame : s'.fixtures = { s.fixtures with documents })
  | disarmed (n : Nat)
      (hnext : s.writer = true → ∃ stage, s'.stageOf n = some stage ∧ stage.shuts = true)
      (hsame : s'.fixtures = { s.fixtures with writer := false })
  | shut {closed : Bool} (hclosed : (∀ n, e ≠ .drop n) → closed = true)
      (hsame : s'.fixtures = { s.fixtures with closed })
  | refused {n : Nat} {stage : RefusalStage} {refusals : Table RefusalStage}
      (he : e.isOf (.refusal n) = true) (hr : s.refusals.get? n = some stage)
      (hother : ∀ m, m ≠ n → refusals.get? m = s.refusals.get? m)
      (hsame : s'.fixtures = { s.fixtures with refusals })
  | added (request : Rpc.ServerRequest)
      (hsame : s'.fixtures = { s.fixtures with
        refusals := s.refusals.set s.nextRefusal (.fresh request)
        nextRefusal := s.nextRefusal + 1 })

theorem proceed_refit {ask : Ask} {mailbox : Option Reply} (hc : s.At n (.admitted ask) mailbox) :
    Refit s (.step (.call n)) (s.proceed n ask) := by
  cases ask with
  | document event =>
    obtain ⟨calls, state, documents, introduction, log, heq⟩ := (settled_proceed hc).eq
    refine .offered documents rfl (stageOf_of_get? hc) ?_
    rw [heq]
    rfl
  | request method params | notify method params => exact .kept (fixtures_moveCall ..)
  | opening => exact .kept rfl
  | stop => exact .kept rfl

/-- A step of closing the stream, by a call that goes on to whatever stage `place` has for its next
place. -/
theorem Closes.refit {next : Closing} (place : Closing → Stage)
    (hplace : (place .shutting).shuts = true) (hn : s.stageOf n = some stage)
    (h : Closes s n closing mid (some next)) : Refit s e (mid.moveCall n (place next)) := by
  have hstage := h.stageOf n
  cases h with
  | joins | aborts | joined hended => exact .kept (fixtures_moveCall ..)
  | takes hholds =>
    refine .disarmed n (fun hwriter => ?_) (fixtures_moveCall ..)
    rw [if_pos hwriter]
    exact ⟨_, stageOf_moved (hstage.trans hn), hplace⟩
  | shuts => exact .shut (fun _ => rfl) (fixtures_moveCall ..)

theorem handle_refit (h : mid.fixtures = s.fixtures) (payload : List UInt8) :
    Refit s e (mid.handle payload) := by
  rw [handle]
  split
  · next response _ =>
    obtain ⟨calls, pending, log, heq⟩ := complete_eq mid response
    rw [heq]
    exact .kept h
  · next request _ =>
    refine .added request ?_
    have hrefusals : mid.refusals = s.refusals := congrArg Fixtures.refusals h
    have hnext : mid.nextRefusal = s.nextRefusal := congrArg Fixtures.nextRefusal h
    rw [← hrefusals, ← hnext, ← h]
    rfl
  · split <;> exact .kept h
  · exact .kept h

theorem refit_of_sending {refusals : Table RefusalStage} (he : e.isOf (.refusal n) = true)
    (h : s.sendingOf (.refusal n) = some sending)
    (hother : ∀ m, m ≠ n → refusals.get? m = s.refusals.get? m)
    (hsame : s'.fixtures = { s.fixtures with refusals }) : Refit s e s' := by
  cases hr : s.refusals.get? n with
  | none => simp [sendingOf, hr] at h
  | some stage => exact .refused he hr hother hsame

/-- Whatever happens, no more than one of the fixtures is changed, and rarely. -/
theorem Change.refit (h : Change s e hs s') : Refit s e s' := by
  have hmoved : ∀ {mid : Session} {n : Nat} {stage : Stage}, mid.fixtures = s.fixtures →
      Refit s e (mid.moveCall n stage) := fun hmid => .kept ((fixtures_moveCall ..).trans hmid)
  have hworked : ∀ {mid : Session} {n : Nat} {deadline : Option Nat} {purpose : Purpose}
      {result : Except SessionError Json}, mid.fixtures = s.fixtures →
      Refit s e (mid.finishWork n deadline purpose result) := fun hmid =>
    .kept ((fixtures_finishWork ..).trans hmid)
  have hset : ∀ {n : Nat} {stage : RefusalStage} (m : Nat), m ≠ n →
      (s.refusals.set n stage).get? m = s.refusals.get? m := fun m hm =>
    (Table.get?_set ..).trans (if_neg hm)
  have herase : ∀ {n : Nat} (m : Nat), m ≠ n →
      (s.refusals.erase n).get? m = s.refusals.get? m := fun m hm =>
    (Table.get?_erase ..).trans (if_neg hm)
  have hself : ∀ {t : Task}, (t == t) = true := beq_self_eq_true _
  cases h with
  | opened hc => exact .kept (fixtures_openCall ..)
  | proceeded hc => exact proceed_refit hc
  | looked hc hw => exact .kept (fixtures_drainCheck ..)
  | leaves hc hup | ends hc hup | tested hc hup | taken hc hs => exact hmoved rfl
  | foundHungUp hc hup | replied hc | exchangeRefused hc | messageRefused hc => exact hworked rfl
  | sends hc hs => exact hmoved hs.fixtures_going
  | sent hc hs | gaveUp hc hs | stopped hc hs => exact hmoved hs.fixtures_finished
  | unsent hc hs | messageSent hc hs => exact hworked hs.fixtures_finished
  | messageSends hc hs => exact hmoved hs.fixtures_going
  | expired hc hb hd => exact .kept ((fixtures_expire ..).trans (fixtures_dropWork ..))
  | @givesUp n closing next error mailbox mid hc hs =>
    exact hs.refit (.givingUp · error) rfl (stageOf_of_get? hc)
  | @stops n closing next report mailbox mid hc hs =>
    exact hs.refit (.ending · report) rfl (stageOf_of_get? hc)
  | @read payload inbox hread habort hrec =>
    have hsame : fixtures { s with inbox } = s.fixtures := rfl
    exact handle_refit hsame payload
  | cleared hread => exact .kept (fixtures_abandonPending s)
  | refusalBegun hr => exact .refused hself hr hset rfl
  | refusalSends hr hs => cases hs <;> exact .refused hself hr hset rfl
  | refusalSent hr hs => cases hs <;> exact .refused hself hr herase rfl
  | refusalTaken hs => exact refit_of_sending hself hs hset rfl
  | refusalRefused hs => exact refit_of_sending hself hs herase rfl
  | workDropped hc => exact .kept (fixtures_dropWork ..)
  | dropped hc hw hst => exact .shut (fun hdrop => absurd rfl (hdrop _)) rfl
  | _ => exact .kept rfl

theorem Change.settings (h : Change s e hs s') : s'.settings = s.settings := by
  cases h.refit <;> exact congrArg Fixtures.settings ‹_›

theorem settings_run (s : Session) (events : List Event) :
    (s.run events).settings = s.settings := by
  induction events generalizing s with
  | nil => rfl
  | cons e events ih => exact (ih (s.apply e)).trans (apply_change s e).settings

def SameRefusals (s s' : Session) : Prop :=
  s'.refusals = s.refusals ∧ s'.nextRefusal = s.nextRefusal

/-- What an event can do to refusals: it changes one that is there and that it is about, or it adds
one under the next number. -/
inductive RefusalsChange (s : Session) (e : Event) (s' : Session) : Prop where
  | kept (hnext : s'.nextRefusal = s.nextRefusal)
      (hsame : ∀ m, s.refusals.get? m = none ∨ e.isOf (.refusal m) = false →
        s'.refusals.get? m = s.refusals.get? m) : RefusalsChange s e s'
  | added (request : Rpc.ServerRequest) (hnext : s'.nextRefusal = s.nextRefusal + 1)
      (hset : s'.refusals = s.refusals.set s.nextRefusal (.fresh request)) : RefusalsChange s e s'

theorem RefusalsChange.of_same (h : SameRefusals s s') : RefusalsChange s e s' :=
  .kept h.2 fun _ _ => by rw [h.1]

theorem Change.refusals (h : Change s e hs s') : RefusalsChange s e s' := by
  cases h.refit with
  | @refused n stage refusals he hr hother hsame =>
    refine .kept (congrArg Fixtures.nextRefusal hsame) fun m hm => ?_
    have hset : s'.refusals = refusals := congrArg Fixtures.refusals hsame
    rw [hset]
    refine hother m ?_
    rintro rfl
    rcases hm with hnone | hm
    · rw [hr] at hnone
      cases hnone
    · rw [he] at hm
      cases hm
  | added request hsame =>
    exact .added request (congrArg Fixtures.nextRefusal hsame) (congrArg Fixtures.refusals hsame)
  | kept hsame | offered documents he hn hsame | disarmed n hnext hsame | shut hclosed hsame =>
    exact .of_same ⟨congrArg Fixtures.refusals hsame, congrArg Fixtures.nextRefusal hsame⟩

end Session

end LanguageClient
