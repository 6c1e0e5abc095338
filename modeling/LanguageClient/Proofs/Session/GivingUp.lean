import LanguageClient.Proofs.Session.Phases
import LanguageClient.Proofs.Session.Fairness

/-!
# A handshake that fails comes to its end

A handshake whose time is up, or which has failed and is closing the stream, is *late*
(`Stage.Late`). It stays late, whatever happens, until it is over, and `Stage.rest` counts the steps
that it has left. What it needs for the next one is a step of its own, except where it waits for the
writer, which it gets in its turn, and where it waits for the reader, which has been told to end
(`needToEnd`). So in a fair run it returns (`Fair.handshake_returns`).
-/

namespace LanguageClient

def Work.rest : Work → Nat
  | .exchange x => 6 - x.rank
  | .send (.fresh _) => 3
  | .send (.queued _) => 2
  | .send (.writing _ _) => 1

def Closing.rest : Closing → Nat
  | .fresh => 6
  | .queued => 5
  | .shutting => 4
  | .aborting => 3
  | .joining => 2
  | .abandoning => 1

/-- The steps that a handshake has left, if it is not kept waiting. -/
def Stage.rest : Stage → Nat
  | .working work _ .introduce => 13 + work.rest
  | .working work _ (.confirm _) => 7 + work.rest
  | .givingUp closing _ => closing.rest
  | _ => 0

def ReaderStage.rest : ReaderStage → Nat
  | .reading => 3
  | .marking => 2
  | .clearing => 1
  | .ended => 0

/-- How far a handshake that has failed has come with closing the stream. -/
def Stage.givesUp : Stage → Option Closing
  | .givingUp closing _ => some closing
  | _ => none

theorem Work.rest_pos (work : Work) : 1 ≤ work.rest := by
  cases work with
  | exchange exchange => cases exchange with
    | sending id sending => cases sending <;> simp [Work.rest, Exchange.rank]
    | _ => simp [Work.rest, Exchange.rank]
  | send sending => cases sending <;> simp [Work.rest]

namespace Session

namespace View

/-- The stage of a handshake that cannot go on for ever: its time is up, or it has failed and is
closing the stream. What comes of it satisfies `P`. -/
def Late (h : View) (P : Outcome → Prop) : Stage → Prop
  | .working _ deadline purpose =>
    (∃ d, deadline = some d ∧ d ≤ h.now) ∧ (purpose = .introduce ∨ ∃ i, purpose = .confirm i) ∧
      P .started ∧ ∀ e : SessionError, e.isOpening = true → P (.failed e)
  | .givingUp closing e =>
    P (.failed e) ∧ (closing = .joining ∨ closing = .abandoning → h.aborted = true)
  | _ => False

variable {h k h' : View} {n : Nat} {P : Outcome → Prop}

variable {hs : List Happening} {out : List Dispatch} {purpose : Purpose} {closing : Closing}
  {e : SessionError} {stage next : Stage}

theorem Works.rest_lt {work next : Work} (hw : Works h n work hs out k next purpose) :
    next.rest < work.rest := by
  cases hw with
  | registers => simp [Work.rest, Exchange.rank]
  | tests hup | written => simp [Work.carrying, Work.rest, Exchange.rank]
  | @joins id | @takes id => cases id <;> simp [Work.carrying, Work.rest, Exchange.rank]

theorem Shuts.rest_lt {next : Closing} (hs : Shuts h n closing k next) :
    next.rest < closing.rest := by
  cases hs with
  | takes hhead hnext => rcases hnext with rfl | rfl <;> simp [Closing.rest]
  | _ => simp [Closing.rest]

theorem Shuts.late {next : Closing} (hs : Shuts h n closing k next)
    (hlate : Late h P (.givingUp closing e)) : Late k P (.givingUp next e) := by
  refine ⟨hlate.1, fun hnext => ?_⟩
  cases hs with
  | joins | shuts => rcases hnext with hnext | hnext <;> cases hnext
  | takes hhead hnext' => rcases hnext' with rfl | rfl <;> rcases hnext with hnext | hnext <;> cases hnext
  | aborts => rfl
  | joined hreader => exact hlate.2 (.inl rfl)

theorem late_next {work : Work} {deadline : Option Nat}
    (hlate : Late h P (.working work deadline purpose)) (hnow : h.now ≤ k.now)
    (result : Except SessionError Json) :
    (∃ outcome, purpose.next h.reads deadline result = .over outcome ∧ P outcome) ∨
      Late k P (purpose.next h.reads deadline result) ∧
        (purpose.next h.reads deadline result).rest < (Stage.working work deadline purpose).rest := by
  obtain ⟨⟨d, rfl, hd⟩, hpurpose, hstarted, hfailed⟩ := hlate
  have hpos := work.rest_pos
  have hgiveUp : ∀ e : SessionError, e.isOpening = true → Late k P (.givingUp .fresh e) :=
    fun e he => ⟨hfailed e he, nofun⟩
  rcases hpurpose with rfl | ⟨i, rfl⟩
  · cases result with
    | error e =>
      refine .inr ⟨hgiveUp _ (by simp), ?_⟩
      simp only [Purpose.next, Stage.rest, Closing.rest]
      omega
    | ok v =>
      simp only [Purpose.next]
      split
      · refine .inr ⟨hgiveUp _ (by simp), ?_⟩
        simp only [Stage.rest, Closing.rest]
        omega
      · next i _ =>
        refine .inr ⟨⟨⟨d, rfl, Nat.le_trans hd hnow⟩, .inr ⟨i, rfl⟩, hstarted, hfailed⟩, ?_⟩
        simp only [Stage.rest, Work.rest]
        omega
  · cases result with
    | error e =>
      refine .inr ⟨hgiveUp _ (by simp), ?_⟩
      simp only [Purpose.next, Stage.rest, Closing.rest]
      omega
    | ok v => exact .inl ⟨.started, rfl, hstarted⟩

/-- What an event `e` can mean to a late handshake at `stage`: it is over, it has come nearer to its
end, or it waits. -/
inductive Proceeds (k : View) (n : Nat) (P : Outcome → Prop) (stage : Stage) (e : Event) : Prop where
  | ends {outcome : Outcome} (hn : k.stage n = some (.over outcome)) (hP : P outcome) :
      Proceeds k n P stage e
  | nearer {next : Stage} (hn : k.stage n = some next) (hlate : Late k P next)
      (hlt : next.rest < stage.rest) : Proceeds k n P stage e
  | waits {next : Stage} (hn : k.stage n = some next) (hlate : Late k P next)
      (hrest : next.rest = stage.rest) (hclosing : next.givesUp = stage.givesUp)
      (hown : e = .step (.call n) → next = stage) : Proceeds k n P stage e

theorem Late.mono (hlate : Late h P stage) (hnow : h.now ≤ k.now)
    (habort : h.aborted = true → k.aborted = true) : Late k P stage := by
  cases stage with
  | working work deadline purpose =>
    obtain ⟨⟨d, hd, hle⟩, hrest⟩ := hlate
    exact ⟨⟨d, hd, Nat.le_trans hle hnow⟩, hrest⟩
  | givingUp closing error => exact ⟨hlate.1, fun hc => habort (hlate.2 hc)⟩
  | _ => exact hlate.elim

theorem Proceeds.of_next {e : Event} (hn : k.stage n = some next)
    (hnext : (∃ outcome, next = .over outcome ∧ P outcome) ∨ Late k P next ∧ next.rest < stage.rest) :
    Proceeds k n P stage e := by
  rcases hnext with ⟨outcome, rfl, hP⟩ | ⟨hlate, hlt⟩
  · exact .ends hn hP
  · exact .nearer hn hlate hlt

theorem Moves.late (hm : Moves h n stage hs out k next) (hlate : Late h P stage) :
    (∃ outcome, next = .over outcome ∧ P outcome) ∨ Late k P next ∧ next.rest < stage.rest := by
  have hnow := Nat.le_of_eq hm.around.now.symm
  cases hm with
  | @works work next hs out k deadline purpose hw =>
    have hlt := hw.rest_lt
    obtain ⟨⟨d, rfl, hd⟩, hpurpose, hends⟩ := hlate
    refine .inr ⟨⟨⟨d, rfl, Nat.le_trans hd hnow⟩, hpurpose, hends⟩, ?_⟩
    rcases hpurpose with rfl | ⟨i, rfl⟩ <;> simp only [Stage.rest] <;> omega
  | ends he => exact late_next hlate hnow _
  | @expires work deadline opening closing purpose hb hpassed =>
    obtain ⟨-, hpurpose, -, hfailed⟩ := hlate
    have hpos := work.rest_pos
    refine .inr ?_
    rcases hpurpose with rfl | ⟨i, rfl⟩
    · refine ⟨⟨hfailed _ rfl, nofun⟩, ?_⟩
      simp only [Purpose.late, Stage.rest, Closing.rest]
      omega
    · refine ⟨⟨hfailed _ rfl, nofun⟩, ?_⟩
      simp only [Purpose.late, Stage.rest, Closing.rest]
      omega
  | givesUp hs => exact .inr ⟨hs.late hlate, hs.rest_lt⟩
  | gaveUp => exact .inl ⟨_, rfl, hlate.1⟩
  | _ => exact hlate.elim

/-- One event in the life of a late handshake, unless its caller loses interest. -/
theorem Course.late {e : Event} (hcourse : h.Course e hs out h') (hn : h.stage n = some stage)
    (hlate : Late h P stage) (hkeep : e ≠ .drop n) : Proceeds h' n P stage e := by
  have hstay : ∀ {k : View}, k.stage n = h.stage n → h.now ≤ k.now →
      (h.aborted = true → k.aborted = true) → Proceeds k n P stage e :=
    fun heq hnow habort => .waits (heq.trans hn) (hlate.mono hnow habort) rfl rfl fun _ => rfl
  have hother : ∀ {k : View} {m : Nat} {next : Option Stage}, n ≠ m → k.stage = h.stage →
      (k.put m next).stage n = h.stage n := fun hne heq => (if_neg hne).trans (congrFun heq n)
  cases hcourse with
  | quiet hheard | reader hread hup | refusalJoins | refusalLeaves | refusalWritten =>
    exact hstay rfl (Nat.le_refl _) id
  | elapsed hnow => exact hstay rfl hnow id
  | @called m ask hm =>
    have hne : n ≠ m := by
      rintro rfl
      rw [hn] at hm
      cases hm
    exact hstay (hother hne rfl) (Nat.le_refl _) id
  | @dropped m a hm =>
    have hne : n ≠ m := by
      rintro rfl
      exact hkeep rfl
    exact hstay (hother hne rfl) (Nat.le_refl _) id
  | @moved m a next hs out k hm hmove =>
    by_cases hne : n = m
    · subst hne
      obtain rfl : a = stage := Option.some.inj (hm.symm.trans hn)
      refine .of_next (if_pos rfl) ((hmove.late hlate).imp_right fun hnext => ?_)
      exact ⟨hnext.1.mono (Nat.le_refl _) id, hnext.2⟩
    · have haround := hmove.around
      exact hstay (hother hne haround.stage) (Nat.le_of_eq haround.now.symm) haround.aborted
  | @poured m count id payload rest rest' deadline purpose hm =>
    by_cases hne : n = m
    · subst hne
      obtain rfl : _ = stage := Option.some.inj (hm.symm.trans hn)
      refine .waits (if_pos rfl) hlate ?_ rfl nofun
      cases purpose <;> cases id <;> rfl
    · exact hstay (hother hne rfl) (Nat.le_refl _) fun h => h
  | @refused m id payload rest deadline purpose cause hm =>
    by_cases hne : n = m
    · subst hne
      obtain rfl : _ = stage := Option.some.inj (hm.symm.trans hn)
      exact .of_next (if_pos rfl) (late_next hlate (Nat.le_refl _) _)
    · exact hstay (hother hne rfl) (Nat.le_refl _) fun h => h

/-- Whoever waits for the reader to end has told it so. -/
def Warned (h : View) : Prop :=
  ∀ n closing e, h.stage n = some (.givingUp closing e) →
    closing = .joining ∨ closing = .abandoning → h.aborted = true

theorem warned_next {reads : Handshake.Decoder} {deadline : Option Nat}
    {result : Except SessionError Json}
    (h : purpose.next reads deadline result = .givingUp closing e) : closing = .fresh := by
  have hfollows := purpose.follows_next reads deadline result
  rw [h] at hfollows
  cases hfollows
  rfl

theorem Moves.warned (hm : Moves h n stage hs out k next) (hw : h.Warned)
    (hn : h.stage n = some stage) (hnext : next = .givingUp closing e)
    (hclosing : closing = .joining ∨ closing = .abandoning) : k.aborted = true := by
  have hfresh : closing ≠ .fresh := by
    rintro rfl
    rcases hclosing with h | h <;> cases h
  cases hm with
  | ends he => exact absurd (warned_next hnext) hfresh
  | @expires work deadline opening closing' purpose hb hlate =>
    cases purpose with
    | introduce | confirm introduction => cases hnext; exact absurd rfl hfresh
    | _ => cases hnext
  | givesUp hs =>
    cases hnext
    cases hs with
    | aborts => rfl
    | joined hreader => exact hw n _ _ hn (.inl rfl)
    | takes hhead hnext =>
      rcases hnext with rfl | rfl <;> rcases hclosing with h | h <;> cases h
    | _ => rcases hclosing with h | h <;> cases h
  | _ => cases hnext

theorem Warned.step {e : Event} (hw : h.Warned) (hcourse : h.Course e hs out h') : h'.Warned := by
  have hput : ∀ {k : View} {m : Nat} {next : Option Stage}, k.stage = h.stage →
      (h.aborted = true → k.aborted = true) →
      (∀ closing e, next = some (.givingUp closing e) →
        closing = .joining ∨ closing = .abandoning → k.aborted = true) → (k.put m next).Warned := by
    intro k m next hstage habort hnext n closing e hn hclosing
    rcases put_stage_eq_some.mp hn with ⟨-, heq⟩ | ⟨-, hn⟩
    · exact hnext closing e heq hclosing
    · exact habort (hw n closing e (hstage ▸ hn) hclosing)
  cases hcourse with
  | quiet hheard => exact hw
  | elapsed hnow => exact hw
  | reader hread hup => exact hw
  | refusalJoins => exact hw
  | refusalLeaves => exact hw
  | refusalWritten => exact hw
  | called hn | dropped hn => exact hput rfl id fun closing e heq => by cases heq
  | moved hn hm =>
    exact hput hm.around.stage hm.around.aborted fun closing e heq => hm.warned hw hn (Option.some.inj heq)
  | poured id hn => exact hput rfl (fun h => h) fun closing e heq => by cases heq
  | refused id hn =>
    refine hput rfl (fun h => h) fun closing e heq hclosing => ?_
    rw [warned_next (Option.some.inj heq)] at hclosing
    rcases hclosing with h | h <;> cases h

end View

/-! ## A step of its own -/

variable {s mid : Session} {n : Nat} {P : Outcome → Prop}

variable {work : Work} {next stage : Stage} {e : Event}

/-- A step of its work leaves a call where it is, and one that goes on has got further. -/
theorem workStep_keeps (s : Session) (n : Nat) (mailbox : Option Reply) (work : Work) :
    (∀ mid next, s.workStep n mailbox work = .going mid next →
      next ≠ work ∧ mid.stageOf n = s.stageOf n) ∧
    ∀ mid result, s.workStep n mailbox work = .finished mid result →
      mid.stageOf n = s.stageOf n := by
  cases work with
  | send sending =>
    have hsends := sendStep_sends s (.call n) sending
    rw [workStep]
    generalize s.sendStep (.call n) sending = progress at hsends ⊢
    cases hsends <;> simp [stageOf, leaveQueue, joinQueue]
  | exchange exchange =>
    cases exchange with
    | fresh method params =>
      refine ⟨fun mid next h => ?_, fun mid result h => by cases h⟩
      cases h
      exact ⟨by simp, stageOf_clearMailbox s n⟩
    | registered request id =>
      cases hup : s.hungUp <;> simp [workStep, exchangeStep, hup, note, unregister, stageOf]
    | sending id sending =>
      have hsends := sendStep_sends s (.call n) sending
      rw [workStep, exchangeStep]
      generalize s.sendStep (.call n) sending = progress at hsends ⊢
      cases hsends <;> simp [stageOf, leaveQueue, joinQueue, unregister]
    | awaiting id => cases mailbox <;> simp [workStep, exchangeStep, unregister, stageOf]

theorem stageOf_of_view {k : View} (h : s.view = k.put n (some next)) :
    s.stageOf n = some next :=
  (congrFun (congrArg View.stage h) n).trans (if_pos rfl)

theorem late_work_moves {deadline : Option Nat} {purpose : Purpose}
    (hn : s.stageOf n = some (.working work deadline purpose))
    (hlate : s.view.Late P (.working work deadline purpose)) :
    (s.apply (.step (.call n))).stageOf n ≠ some (.working work deadline purpose) := by
  obtain ⟨mailbox, hc⟩ := exists_at hn
  obtain ⟨⟨d, rfl, hd⟩, hpurpose, -⟩ := hlate
  intro hsame
  cases hw : s.workStep n mailbox work with
  | blocked =>
    have hd' : d ≤ s.now := hd
    have happly : s.apply (.step (.call n)) = (s.dropWork (.call n) work).expire n purpose := by
      simp [apply, step, callStep, hc, hw, hd']
    have hnext : ∃ a b, ((s.dropWork (.call n) work).expire n purpose).stageOf n =
        some (purpose.late a b) :=
      ⟨_, _, stageOf_of_view (view_expire (view_dropWork ..) hn)⟩
    obtain ⟨a, b, hnext⟩ := hnext
    rw [happly, hnext] at hsame
    rcases hpurpose with rfl | ⟨i, rfl⟩ <;> cases hsame
  | going mid next =>
    obtain ⟨hne, hmid⟩ := (workStep_keeps s n mailbox work).1 mid next hw
    rw [apply_of_going hc hw, stageOf_moved (hmid.trans hn)] at hsame
    injection hsame with hsame
    injection hsame with hwork
    exact hne hwork
  | finished mid result =>
    have hmid := ((workStep_keeps s n mailbox work).2 mid result hw).trans hn
    have hnext : (mid.finishWork n (some d) purpose result).stageOf n =
        some (purpose.next mid.settings.reads (some d) result) :=
      stageOf_of_view (view_finishWork rfl hmid)
    rw [apply_of_finished hc hw, hnext] at hsame
    rcases hpurpose with rfl | ⟨i, rfl⟩
    · cases result with
      | error e => cases hsame
      | ok v =>
        simp only [Purpose.next] at hsame
        split at hsame <;> cases hsame
    · cases result <;> cases hsame

/-- Whoever closes the stream gets on by a step, unless they wait for the writer or for the reader. -/
theorem closing_moves {closing : Closing} {error : SessionError}
    (hn : s.stageOf n = some (.givingUp closing error))
    (hsame : (s.apply (.step (.call n))).stageOf n = some (.givingUp closing error)) :
    closing = .queued ∨ closing = .joining ∧ s.reader ≠ .ended := by
  obtain ⟨mailbox, hc⟩ := exists_at hn
  have hmoves : ∀ {mid : Session} {next : Closing}, s.closeStep n closing = some (mid, some next) →
      mid.stageOf n = s.stageOf n → next = closing := by
    intro mid next hclose hmid
    have happly : s.apply (.step (.call n)) = mid.moveCall n (.givingUp next error) := by
      simp [apply, step, callStep, hc, hclose]
    rw [happly, stageOf_moved (hmid.trans hn)] at hsame
    injection hsame with hsame
    injection hsame
  cases closing with
  | fresh => cases hmoves rfl rfl
  | queued => exact .inl rfl
  | shutting => cases hmoves rfl (by cases s.closeFailure <;> rfl)
  | aborting => cases hmoves rfl rfl
  | joining =>
    refine .inr ⟨rfl, fun hended => ?_⟩
    have hclose : s.closeStep n .joining = some (s, some .abandoning) := if_pos hended
    cases hmoves hclose rfl
  | abandoning =>
    obtain ⟨log, hclose⟩ := closeStep_abandoning s n
    have hover : (s.apply (.step (.call n))).stageOf n = some (.over (.failed error)) := by
      simp only [apply, step, callStep, hc, hclose, Option.getD_some]
      exact stageOf_moved ((stageOf_abandonPending s n).trans hn)
    cases hover.symm.trans hsame

/-! ## What a late handshake waits for

There are two waits, and each has a measure: the work before it at the writer, and what the reader
has left. -/

theorem reader_step (habort : s.readerAborted = true) (hread : s.reader ≠ .ended) :
    (s.apply (.step .reader)).reader.rest < s.reader.rest := by
  cases hr : s.reader with
  | ended => exact absurd hr hread
  | reading => simp [apply, step, readerStep, hr, habort, ReaderStage.rest]
  | marking => simp [apply, step, readerStep, hr, ReaderStage.rest]
  | clearing =>
    have hended : (s.apply (.step .reader)).reader = .ended := by
      simp only [apply, step, readerStep, hr]
      split <;> rfl
    rw [hended]
    exact Nat.zero_lt_one

/-- What lies before a handshake that has come so far with closing the stream: the work of others
where it waits for the writer, and what the reader has to do where it waits for the reader. -/
def before (s : Session) (n : Nat) : Option Closing → Nat
  | some .queued => s.ahead (.call n)
  | some .joining => s.reader.rest
  | _ => 0

/-- What a handshake that has come so far with closing the stream needs in order to get on. -/
def needToClose (s : Session) (n : Nat) : Option Closing → Need
  | some .queued => s.queue.head?.elim (.step (.call n)) s.needAt
  | some .joining => if s.reader = .ended then .step (.call n) else .step .reader
  | _ => .step (.call n)

def toEnd (s : Session) (n : Nat) : Nat × Nat :=
  ((s.stageOf n).elim 0 Stage.rest, s.before n ((s.stageOf n).bind Stage.givesUp))

def needToEnd (s : Session) (n : Nat) : Need :=
  s.needToClose n ((s.stageOf n).bind Stage.givesUp)

theorem toEnd_eq (hn : s.stageOf n = some stage) :
    s.toEnd n = (stage.rest, s.before n stage.givesUp) := by
  rw [toEnd, hn]
  rfl

theorem needToEnd_eq (hn : s.stageOf n = some stage) :
    s.needToEnd n = s.needToClose n stage.givesUp := by
  rw [needToEnd, hn]
  rfl

/-- Whoever waits for the writer to close the stream gets nearer to it, unless what the first in line
needs did not happen. -/
theorem writer_approaches (hl : Lined s) (hn : s.stageOf n = some stage)
    (hn' : (s.apply e).stageOf n = some next) (hx : stage.givesUp = some .queued)
    (hx' : next.givesUp = some .queued) :
    (s.apply e).before n (some .queued) < s.before n (some .queued) ∨
      (s.apply e).before n (some .queued) = s.before n (some .queued) ∧
        (s.apply e).needToClose n (some .queued) = s.needToClose n (some .queued) ∧
        ¬ (s.needToClose n (some .queued)).Met s e := by
  have hqueued : ∀ {stage : Stage}, stage.givesUp = some .queued → stage.errand.isSome = true := by
    intro stage hx
    cases stage with
    | givingUp closing error =>
      obtain rfl := Option.some.inj hx
      rfl
    | _ => cases hx
  have hmem : .call n ∈ s.queue := (hl.queued _).mpr (errand_call hn ▸ hqueued hx)
  have hmem' : .call n ∈ (s.apply e).queue :=
    ((hl.apply e).queued _).mpr (errand_call hn' ▸ hqueued hx')
  have hturn := (apply_change s e).turn hl.numbered
  obtain ⟨a, hhead, hlt | ⟨heq, hhead', ha⟩⟩ := hturn.ahead hl hmem hmem'
  · exact .inl hlt
  · refine .inr ⟨heq, ?_, fun hmet => ?_⟩
    · simp only [needToClose, hhead, hhead', Option.elim_some, needAt_congr ha]
    · simp only [needToClose, hhead, Option.elim_some] at hmet
      exact progress hl hhead hmet ha

/-- Whoever waits for the reader, which has been told to end, gets nearer to that, unless what is
needed did not happen. -/
theorem reader_approaches (hl : Lined s) (habort : s.readerAborted = true)
    (hwaits : e = .step (.call n) → s.reader ≠ .ended) :
    (s.apply e).before n (some .joining) < s.before n (some .joining) ∨
      (s.apply e).before n (some .joining) = s.before n (some .joining) ∧
        (s.apply e).needToClose n (some .joining) = s.needToClose n (some .joining) ∧
        ¬ (s.needToClose n (some .joining)).Met s e := by
  rcases (course hl e).reader_eq with heq | ⟨rfl, hread⟩
  · have hsame : (s.apply e).reader = s.reader := heq
    by_cases hended : s.reader = .ended
    · refine .inr ⟨congrArg ReaderStage.rest hsame, ?_, fun hmet => ?_⟩
      · simp only [needToClose, hsame]
      · simp only [needToClose, if_pos hended] at hmet
        exact hwaits hmet hended
    · by_cases he : e = .step .reader
      · subst he
        exact .inl (reader_step habort hended)
      · refine .inr ⟨congrArg ReaderStage.rest hsame, ?_, fun hmet => ?_⟩
        · simp only [needToClose, hsame]
        · simp only [needToClose, if_neg hended] at hmet
          exact he hmet
  · exact .inl (reader_step habort hread)

/-- A late handshake that has come no further has come nearer to what it waits for, or waits for
something that did not happen. -/
theorem late_approaches (hl : Lined s) (hn : s.stageOf n = some stage)
    (hn' : (s.apply e).stageOf n = some next) (hlate : s.view.Late P stage)
    (hrest : next.rest = stage.rest) (hclosing : next.givesUp = stage.givesUp)
    (hown : e = .step (.call n) → next = stage) :
    Prod.Lex (· < ·) (· < ·) ((s.apply e).toEnd n) (s.toEnd n) ∨
      (s.apply e).toEnd n = s.toEnd n ∧ (s.apply e).needToEnd n = s.needToEnd n ∧
        ¬ (s.needToEnd n).Met s e := by
  rw [toEnd_eq hn, toEnd_eq hn', needToEnd_eq hn, needToEnd_eq hn', hrest, hclosing]
  have hlex : ∀ {x : Option Closing}, ((s.apply e).before n x < s.before n x ∨
      (s.apply e).before n x = s.before n x ∧ (s.apply e).needToClose n x = s.needToClose n x ∧
        ¬ (s.needToClose n x).Met s e) →
      Prod.Lex (· < ·) (· < ·) (stage.rest, (s.apply e).before n x) (stage.rest, s.before n x) ∨
        (stage.rest, (s.apply e).before n x) = (stage.rest, s.before n x) ∧
          (s.apply e).needToClose n x = s.needToClose n x ∧ ¬ (s.needToClose n x).Met s e :=
    fun h => h.imp (.right _) fun ⟨heq, hneed⟩ => ⟨by rw [heq], hneed⟩
  have hsame : e = .step (.call n) → (s.apply (.step (.call n))).stageOf n = some stage := by
    rintro rfl
    rw [hn', hown rfl]
  cases stage with
  | working work deadline purpose =>
    exact hlex (.inr ⟨rfl, rfl, fun he => late_work_moves hn hlate (hsame he)⟩)
  | givingUp closing error =>
    have hwaits := fun he => closing_moves hn (hsame he)
    cases closing with
    | queued => exact hlex (writer_approaches hl hn hn' rfl hclosing)
    | joining =>
      refine hlex (reader_approaches hl (hlate.2 (.inl rfl)) fun he => ?_)
      rcases hwaits he with hq | ⟨-, hread⟩
      · cases hq
      · exact hread
    | _ =>
      refine hlex (.inr ⟨rfl, rfl, fun he => ?_⟩)
      rcases hwaits he with hq | ⟨hj, -⟩
      · cases hq
      · cases hj
  | _ => exact hlate.elim

/-- In a fair run a handshake that is late returns, unless its caller loses interest. -/
theorem Fair.handshake_returns {σ : Nat → Event} (hfair : Fair s σ) (hl : Lined s)
    (hn : s.stageOf n = some stage) (hlate : s.view.Late P stage) (hkeep : ∀ k, σ k ≠ .drop n) :
    ∃ k outcome, (s.along σ k).stageOf n = some (.over outcome) ∧ P outcome := by
  refine (Fair.leads_to (A := fun _ e => e ≠ .drop n)
    (P := fun s => Lined s ∧ ∃ stage, s.stageOf n = some stage ∧ s.view.Late P stage)
    (Q := fun s e => ∃ outcome, (s.apply e).stageOf n = some (.over outcome) ∧ P outcome)
    (Nat.lt_wfRel.wf.prod_lex Nat.lt_wfRel.wf) (toEnd · n) (needToEnd · n) ?_ hfair hkeep
    ⟨hl, stage, hn, hlate⟩).elim fun k hk => ⟨k + 1, hk.2⟩
  rintro s e hne ⟨hl, stage, hn, hlate⟩
  cases (course hl e).late hn hlate hne with
  | @ends outcome hn' hP => exact .inl ⟨outcome, hn', hP⟩
  | @nearer next hn' hlate' hlt =>
    refine .inr ⟨⟨hl.apply e, next, hn', hlate'⟩, .inl ?_⟩
    rw [toEnd_eq hn, toEnd_eq hn']
    exact .left _ _ hlt
  | @waits next hn' hlate' hrest hclosing hown =>
    exact .inr ⟨⟨hl.apply e, next, hn', hlate'⟩,
      late_approaches hl hn hn' hlate hrest hclosing hown⟩

end Session

end LanguageClient
