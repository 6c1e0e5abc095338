import LanguageClient.Proofs.Rpc.Envelopes
import LanguageClient.Proofs.Session.Phases
import LanguageClient.Proofs.Session.Refusals
import Mathlib.Data.List.Nodup

/-!
# Where the server's messages go

The reader takes one frame after the other off the server's stream, up to the first that is none, and
every payload goes its way: responses to the calls that wait for them, notifications to whoever holds
the receiver, requests to a refusal each.

A run is looked at from the server's side. What the server has sent by then is one stream
(`incoming`), however it came in pieces, and the payloads that the reader has taken are the first ones
of that stream (`Reading`). Of these, the notifications are what has been fetched and what lies ready
(`Noticed`), and the requests are what the frames of refusals answer (`Replying`).
-/

namespace LanguageClient

def Rpc.noticeIn (payload : List UInt8) : Option Rpc.Notification :=
  match Rpc.Message.ofPayload payload with
  | .ok (.notification notice) => some notice
  | _ => none

namespace Session

variable {s : Session} {e : Event}

/-! ## The writer is there as long as the reader is not told to end -/

/-- Whoever has taken the writer away has taken it away, and the reader is told to end only then. -/
structure View.Parted (h : View) : Prop where
  taken : ∀ n stage, h.stage n = some stage → stage.hasTaken = true → h.writer = false
  aborted : h.aborted = true → h.writer = false

namespace View

variable {h k h' : View} {n : Nat} {out : List Dispatch}

theorem Parted.put (hp : h.Parted) (hstage : k.stage = h.stage)
    (hgone : h.writer = false → k.writer = false) (habort : k.aborted = true → k.writer = false)
    {next : Option Stage}
    (hnext : ∀ stage, next = some stage → stage.hasTaken = true → k.writer = false) :
    (k.put n next).Parted := by
  refine ⟨fun m stage hm htaken => ?_, habort⟩
  rcases put_stage_eq_some.mp hm with ⟨-, heq⟩ | ⟨-, hm⟩
  · exact hnext stage heq htaken
  · exact hgone (hp.taken m stage (hstage ▸ hm) htaken)

theorem Parted.shuts {closing next : Closing} (hp : h.Parted)
    (htaken : closing.hasTaken = true → h.writer = false) (hs : h.Shuts n closing k next) :
    (k.aborted = true → k.writer = false) ∧ (next.hasTaken = true → k.writer = false) := by
  cases hs with
  | joins => exact ⟨hp.aborted, nofun⟩
  | takes hhead hnext => exact ⟨fun _ => rfl, fun _ => rfl⟩
  | shuts | joined hreader => exact ⟨hp.aborted, fun _ => htaken rfl⟩
  | aborts => exact ⟨fun _ => htaken rfl, fun _ => htaken rfl⟩

variable {hs : List Happening}

theorem Parted.moved {stage next : Stage} (hp : h.Parted) (hn : h.stage n = some stage)
    (hm : h.Moves n stage hs out k next) :
    (k.aborted = true → k.writer = false) ∧ (next.hasTaken = true → k.writer = false) := by
  have hnever : ∀ {stage : Stage}, stage.hasTaken = false → stage.hasTaken = true →
      k.writer = false := fun hfalse htrue => by rw [hfalse] at htrue; cases htrue
  cases hm with
  | works hw => cases hw <;> exact ⟨hp.aborted, nofun⟩
  | @ends work hs out k result deadline purpose he =>
    refine ⟨?_, hnever (purpose.follows_next h.reads deadline result).hasTaken.1⟩
    obtain ⟨state, introduction, heq⟩ := settle_eq k purpose result
    rw [heq]
    cases he <;> exact hp.aborted
  | @expires work deadline opening closing purpose hb hlate =>
    exact ⟨hp.aborted, hnever (purpose.follows_late opening closing).hasTaken.1⟩
  | givesUp hs | closes hs => exact hp.shuts (hp.taken n _ hn) hs
  | _ => exact ⟨hp.aborted, nofun⟩

theorem Parted.step (hp : h.Parted) (hcourse : h.Course e hs out h') : h'.Parted := by
  have hput : ∀ {k : View} {n : Nat} {next : Option Stage}, k.stage = h.stage →
      k.writer = h.writer → k.aborted = h.aborted →
      next.any Stage.hasTaken = false → (k.put n next).Parted := by
    intro k n next hstage hwriter habort hnext
    refine hp.put hstage (hwriter.trans ·) (fun h => hwriter.trans (hp.aborted (habort ▸ h))) ?_
    rintro stage rfl htaken
    rw [Option.any_some, htaken] at hnext
    cases hnext
  cases hcourse with
  | called hn | dropped hn | poured id hn => exact hput rfl rfl rfl rfl
  | @moved n stage next hs out k hn hm =>
    obtain ⟨habort, hnext⟩ := hp.moved hn hm
    have hmoved : h.Course (.step (.call n)) hs out (k.put n (some next)) := .moved hn hm
    refine hp.put hm.around.stage hmoved.writer_gone habort fun stage heq => ?_
    obtain rfl := Option.some.inj heq
    exact hnext
  | @refused n id payload rest deadline purpose cause hn =>
    exact hput rfl rfl rfl (purpose.follows_next h.reads deadline _).hasTaken.1
  | _ => exact ⟨hp.taken, hp.aborted⟩

theorem Course.hungUp_eq (hcourse : h.Course e hs out h') (he : e ≠ .step .reader) :
    h'.hungUp = h.hungUp := by
  cases hcourse with
  | reader hread hup => exact absurd rfl he
  | moved hn hm => exact hm.around.hungUp
  | _ => rfl

end View

/-- A session whose queue is in order and whose writer is there as long as the reader may read. -/
structure Tended (s : Session) : Prop where
  lined : Lined s
  parted : s.view.Parted

theorem Tended.apply (h : Tended s) (e : Event) : Tended (s.apply e) :=
  ⟨h.lined.apply e, h.parted.step (course h.lined e)⟩

theorem Tended.run (h : Tended s) (events : List Event) : Tended (s.run events) := by
  induction events generalizing s with
  | nil => exact h
  | cons e events ih => exact ih (h.apply e)

theorem Tended.aborted (h : Tended s) (hwriter : s.writer = true) : s.readerAborted = false := by
  cases habort : s.readerAborted with
  | false => rfl
  | true =>
    have hgone : s.writer = false := h.parted.aborted habort
    rw [hwriter] at hgone
    cases hgone

variable {events : List Event} {payload : List UInt8}

theorem Tended.writer (h : Tended s) (hwriter : (s.run events).writer = true) :
    s.writer = true := by
  induction events generalizing s with
  | nil => exact hwriter
  | cons e events ih => exact writer_of_apply h.lined (ih (h.apply e) hwriter)

theorem tended_start (settings : SessionSettings) (filter : DocumentFilter) (label : String)
    (processId now : Nat) : Tended (start settings filter label processId now) := by
  have hfresh : ∀ n stage, (start settings filter label processId now).stageOf n = some stage →
      stage.hasTaken = true → (start settings filter label processId now).writer = false := by
    intro n stage hn htaken
    obtain ⟨-, rfl⟩ := stageOf_start_eq_some hn
    cases htaken
  exact ⟨lined_start .., hfresh, Bool.noConfusion⟩

/-! ## What the server has sent -/

/-- The server's stream as far as it has come in a run, whether or not it has been read. -/
def incoming (events : List Event) : Frame.Stream := events.foldl Event.extends ⟨[], .ongoing⟩

def fetchedBy (s : Session) : Event → List Rpc.Notification
  | .fetchNotices => if s.receiver = .taken then s.notices else []
  | _ => []

def fetched (s : Session) : List Event → List Rpc.Notification
  | [] => []
  | e :: events => s.fetchedBy e ++ (s.apply e).fetched events

/-! ## The reader and its stream

The invariant ties three things together: the octets that have come, the payloads taken, and what is
left to read. -/

/-- The payloads `ps` that the reader has taken are the first ones of the server's stream. While it
reads, it goes on right behind them; it has stopped because there is no frame behind them, and has
marked the end of the stream if it is past doing so. -/
structure Reading (s : Session) (stream : Frame.Stream) (ps : List (List UInt8)) : Prop where
  delivers : ∃ rest, Frame.Delivers stream ps rest ∧ (s.reader = .reading → s.inbox = rest) ∧
    (s.reader ≠ .reading → ∃ error rest', Frame.receive rest = (.failure error, rest'))
  marked : s.hungUp = true ↔ s.reader = .clearing ∨ s.reader = .ended

variable {stream : Frame.Stream} {ps : List (List UInt8)}

theorem delivers_extends {rest : Frame.Stream} (h : Frame.Delivers stream ps rest) (e : Event) :
    Frame.Delivers (e.extends stream) ps (e.extends rest) := by
  have hending : rest.ending = stream.ending := h.ending
  cases e with
  | arrive bytes | endStream ending =>
    simp only [Event.extends, hending]
    split
    · next hongoing => exact h.grow hongoing _ _
    · exact h
  | _ => exact h

theorem takenBy_of_ne (he : e ≠ .step .reader) : s.takenBy e = none := by
  unfold takenBy
  split
  · exact absurd rfl he
  · rfl

theorem Reading.other (h : Reading s stream ps) (hl : Lined s) (he : e ≠ .step .reader) :
    Reading (s.apply e) (e.extends stream) ps := by
  have hreader := reader_apply hl he
  have hup : (s.apply e).hungUp = s.hungUp := (course hl e).hungUp_eq he
  obtain ⟨rest, hdelivers, hreading, hstopped⟩ := h.delivers
  refine ⟨⟨e.extends rest, delivers_extends hdelivers e, fun hread => ?_, fun hread => ?_⟩, ?_⟩
  · rw [inbox_apply he, hreading (hreader ▸ hread)]
  · obtain ⟨error, rest', hrec⟩ := hstopped (hreader ▸ hread)
    exact ⟨error, receive_extends hrec nofun e⟩
  · rw [hreader, hup]
    exact h.marked

theorem reader_handle (s : Session) (payload : List UInt8) :
    (s.handle payload).reader = s.reader ∧ (s.handle payload).hungUp = s.hungUp ∧
      (s.handle payload).inbox = s.inbox ∧ (s.handle payload).receiver = s.receiver := by
  obtain ⟨calls, pending, log, refusals, nextRefusal, notices, heq⟩ := handle_eq s payload
  rw [heq]
  exact ⟨rfl, rfl, rfl, rfl⟩

theorem abandonPending_hungUp (s : Session) : s.abandonPending.hungUp = s.hungUp := by
  obtain ⟨calls, heq⟩ := abandonPending_eq s
  rw [heq]

/-- The last steps of the reader: it has found no frame, and looks for none. -/
theorem Reading.last (h : Reading s stream ps) (hread : s.reader ≠ .reading)
    (hreader : (s.apply (.step .reader)).reader = .clearing ∨
      (s.apply (.step .reader)).reader = .ended)
    (hup : (s.apply (.step .reader)).hungUp = true) :
    Reading (s.apply (.step .reader)) stream (ps ++ (s.takenBy (.step .reader)).toList) := by
  obtain ⟨rest, hdelivers, -, hstopped⟩ := h.delivers
  have htaken : s.takenBy (.step .reader) = none := by
    cases hstage : s.reader with
    | reading => exact absurd hstage hread
    | _ => simp [takenBy, hstage]
  rw [htaken, Option.toList_none, List.append_nil]
  refine ⟨⟨rest, hdelivers, fun hreading => ?_, fun _ => hstopped hread⟩, fun _ => hreader,
    fun _ => hup⟩
  rw [hreading] at hreader
  rcases hreader with hreader | hreader <;> cases hreader

theorem Reading.receives (h : Reading s stream ps) (habort : s.readerAborted = false)
    (hread : s.reader = .reading) :
    Reading (s.apply (.step .reader)) stream (ps ++ (s.takenBy (.step .reader)).toList) := by
  obtain ⟨rest, hdelivers, hreading, -⟩ := h.delivers
  obtain rfl := hreading hread
  have hdown : s.hungUp ≠ true := by
    rw [Ne, h.marked, hread]
    decide
  cases hrec : Frame.receive s.inbox with
  | mk received inbox =>
    cases received with
    | waiting =>
      have happly : s.apply (.step .reader) = s := by
        simp [apply, Session.step, readerStep, hread, habort, hrec]
      have htaken : s.takenBy (.step .reader) = none := by simp [takenBy, hread, habort, hrec]
      rw [happly, htaken, Option.toList_none, List.append_nil]
      exact h
    | payload payload =>
      have htaken := takenBy_reading hread habort hrec
      obtain ⟨inbox', -, -, -, hrec', happly⟩ := apply_of_taken htaken
      obtain rfl := (Prod.mk.inj (hrec.symm.trans hrec')).2
      obtain ⟨hreader, hup, hinbox, -⟩ := reader_handle (s.withInbox inbox) payload
      rw [happly, htaken]
      refine ⟨⟨inbox, hdelivers.frame hrec, fun _ => hinbox, fun hne => ?_⟩, ?_⟩
      · exact absurd (hreader.trans hread) hne
      · rw [hreader, hup]
        exact h.marked
    | failure error =>
      have htaken : s.takenBy (.step .reader) = none := by simp [takenBy, hread, habort, hrec]
      obtain ⟨hreader, hup⟩ : (s.apply (.step .reader)).reader = .marking ∧
          (s.apply (.step .reader)).hungUp = s.hungUp := by
        cases error <;> simp [apply, Session.step, readerStep, hread, habort, hrec, note]
      rw [htaken, Option.toList_none, List.append_nil]
      refine ⟨⟨s.inbox, hdelivers, fun hne => ?_, fun _ => ⟨error, inbox, hrec⟩⟩, ?_⟩
      · rw [hreader] at hne
        cases hne
      · rw [hreader, hup]
        exact ⟨fun hup => absurd hup hdown, fun h => absurd h (by decide)⟩

theorem Reading.step (h : Reading s stream ps) (habort : s.readerAborted = false) :
    Reading (s.apply (.step .reader)) stream (ps ++ (s.takenBy (.step .reader)).toList) := by
  cases hread : s.reader with
  | reading => exact h.receives habort hread
  | marking =>
    have hup : (s.apply (.step .reader)).hungUp = true ∧
        (s.apply (.step .reader)).reader = .clearing := by
      simp [apply, Session.step, readerStep, hread]
    exact h.last (by simp [hread]) (.inl hup.2) hup.1
  | clearing =>
    have hup : (s.apply (.step .reader)).hungUp = s.hungUp ∧
        (s.apply (.step .reader)).reader = .ended := by
      simp only [apply, Session.step, readerStep, hread]
      split <;> exact ⟨abandonPending_hungUp s, rfl⟩
    exact h.last (by simp [hread]) (.inr hup.2) (hup.1.trans (h.marked.mpr (.inl hread)))
  | ended =>
    have happly : s.apply (.step .reader) = s := by simp [apply, Session.step, readerStep, hread]
    exact h.last (by simp [hread]) (.inr (happly.symm ▸ hread))
      (happly.symm ▸ h.marked.mpr (.inr hread))

theorem Reading.apply (h : Reading s stream ps) (hl : Lined s) (habort : s.readerAborted = false)
    (e : Event) : Reading (s.apply e) (e.extends stream) (ps ++ (s.takenBy e).toList) := by
  by_cases he : e = .step .reader
  · subst he
    exact h.step habort
  · rw [takenBy_of_ne he, Option.toList_none, List.append_nil]
    exact h.other hl he

theorem Reading.run (h : Reading s stream ps) (ht : Tended s)
    (hwriter : (s.run events).writer = true) :
    Reading (s.run events) (events.foldl Event.extends stream) (ps ++ s.taken events) := by
  induction events generalizing s stream ps with
  | nil =>
    rw [taken, List.append_nil]
    exact h
  | cons e events ih =>
    have habort := ht.aborted (ht.writer hwriter)
    rw [taken, ← List.append_assoc]
    exact ih (h.apply ht.lined habort e) (ht.apply e) hwriter

/-! ## Notifications -/

/-- Of the notifications `seen`, `got` have been fetched, and the others lie ready unless the receiver
has been thrown away. -/
structure Noticed (s : Session) (seen got : List Rpc.Notification) : Prop where
  ready : s.receiver ≠ .discarded → got ++ s.notices = seen
  first : got <+: seen

variable {seen got : List Rpc.Notification}

theorem Noticed.of_intake {s' : Session} (h : Noticed s seen got) (hnotices : s'.notices = s.notices)
    (hreceiver : s'.receiver = s.receiver) : Noticed s' seen got := by
  refine ⟨fun hne => ?_, h.first⟩
  rw [hnotices]
  exact h.ready (hreceiver ▸ hne)

theorem notices_handle (s : Session) (payload : List UInt8) (h : s.receiver ≠ .discarded) :
    (s.handle payload).notices = s.notices ++ (Rpc.noticeIn payload).toList := by
  unfold handle Rpc.noticeIn
  split
  · next response hread =>
    obtain ⟨calls, pending, log, heq⟩ := complete_eq s response
    rw [heq, hread]
    exact (List.append_nil _).symm
  · next request hread =>
    rw [hread]
    exact (List.append_nil _).symm
  · next notice hread =>
    rw [if_neg h, hread]
    rfl
  · next error hread =>
    rw [hread]
    exact (List.append_nil _).symm

theorem Noticed.taken (h : Noticed s seen got) :
    Noticed (s.handle payload) (seen ++ (Rpc.noticeIn payload).toList) got := by
  obtain ⟨-, -, -, hreceiver⟩ := reader_handle s payload
  refine ⟨fun hne => ?_, h.first.trans (List.prefix_append ..)⟩
  have hkept : s.receiver ≠ .discarded := hreceiver ▸ hne
  rw [notices_handle s payload hkept, ← List.append_assoc, h.ready hkept]

theorem Noticed.untaken (h : Noticed s seen got) (htaken : s.takenBy e = none) :
    Noticed (s.apply e) seen (got ++ s.fetchedBy e) := by
  cases hinner : e.isInner with
  | true =>
    obtain ⟨inbox, hsame⟩ := intake_of_untaken htaken hinner
    have hnothing : s.fetchedBy e = [] := by
      cases e with
      | fetchNotices => cases hinner
      | _ => rfl
    rw [hnothing, List.append_nil]
    exact h.of_intake (congrArg Intake.notices hsame) (congrArg Intake.receiver hsame)
  | false =>
    cases e with
    | arrive bytes | endStream ending =>
      simp only [fetchedBy, List.append_nil, apply]
      split <;> exact h.of_intake rfl rfl
    | takeNotices =>
      simp only [fetchedBy, List.append_nil, apply]
      split
      · next hkept => exact ⟨fun _ => h.ready (by rw [hkept]; decide), h.first⟩
      · exact h
    | fetchNotices =>
      simp only [fetchedBy, apply]
      split
      · next htook =>
        have hready := h.ready (by rw [htook]; decide)
        exact ⟨fun _ => by rw [List.append_nil, hready], hready ▸ List.prefix_rfl⟩
      · rw [List.append_nil]
        exact h
    | discardNotices =>
      simp only [fetchedBy, List.append_nil]
      exact ⟨fun hne => absurd rfl hne, h.first⟩
    | _ => cases hinner

theorem Noticed.apply (h : Noticed s seen got) (e : Event) :
    Noticed (s.apply e) (seen ++ (s.takenBy e).toList.filterMap Rpc.noticeIn)
      (got ++ s.fetchedBy e) := by
  cases htaken : s.takenBy e with
  | none =>
    rw [Option.toList_none, List.filterMap_nil, List.append_nil]
    exact h.untaken htaken
  | some payload =>
    obtain ⟨inbox, rfl, -, -, -, happly⟩ := apply_of_taken htaken
    have hsame : Noticed (s.withInbox inbox) seen got := h.of_intake rfl rfl
    have hseen : (some payload).toList.filterMap Rpc.noticeIn = (Rpc.noticeIn payload).toList := by
      cases hnotice : Rpc.noticeIn payload <;> simp [hnotice]
    have hnothing : s.fetchedBy (.step .reader) = [] := rfl
    rw [happly, hseen, hnothing, List.append_nil]
    exact hsame.taken

theorem Noticed.run (h : Noticed s seen got) (events : List Event) :
    Noticed (s.run events) (seen ++ (s.taken events).filterMap Rpc.noticeIn)
      (got ++ s.fetched events) := by
  induction events generalizing s seen got with
  | nil =>
    rw [Session.taken, fetched, List.filterMap_nil, List.append_nil, List.append_nil]
    exact h
  | cons e events ih =>
    rw [Session.taken, fetched, List.filterMap_append, ← List.append_assoc, ← List.append_assoc]
    exact ih (h.apply e)

/-! ## The reader gets on

The reader waits for nobody, so fairness to its own steps is enough. -/

/-- In a fair run whatever has come as a frame is taken off the stream, as long as the writer is
there. -/
theorem payload_leads_to_taken {σ : Nat → Event} (ht : Tended s) (hread : s.reader = .reading)
    (hrec : ∃ rest, Frame.receive s.inbox = (.payload payload, rest)) (hfair : Fair s σ)
    (hwriter : ∀ j, (s.along σ j).writer = true) :
    ∃ j, (s.along σ j).takenBy (σ j) = some payload := by
  refine (Fair.leads_to (A := fun s _ => s.writer = true)
    (P := fun s => Tended s ∧ s.reader = .reading ∧
      ∃ rest, Frame.receive s.inbox = (.payload payload, rest))
    (Q := fun s e => s.takenBy e = some payload) Nat.lt_wfRel.wf (fun _ => 0)
    (fun _ => .step .reader) ?_ hfair hwriter ⟨ht, hread, hrec⟩).imp fun j hj => hj.2
  rintro s e hwriter ⟨ht, hread, rest, hrec⟩
  by_cases he : e = .step .reader
  · subst he
    exact .inl (takenBy_reading hread (ht.aborted hwriter) hrec)
  · refine .inr ⟨⟨ht.apply e, (reader_apply ht.lined he).trans hread, ?_⟩, .inr ⟨rfl, rfl, he⟩⟩
    rw [inbox_apply he]
    exact receive_extends hrec nofun e

/-- In a fair run the end of the stream, or a fault in it, is marked, as long as the writer is
there. -/
theorem failure_leads_to_mark {σ : Nat → Event} {error : FramingError} (ht : Tended s)
    (hread : s.reader = .reading ∨ s.reader = .marking) (hend : s.Spent error s.inbox)
    (hfair : Fair s σ) (hwriter : ∀ j, (s.along σ j).writer = true) :
    ∃ j, (s.along σ (j + 1)).hungUp = true := by
  -- The reader first finds the fault, and then marks it.
  refine (Fair.leads_to (A := fun s _ => s.writer = true)
    (P := fun s => Tended s ∧ (s.reader = .reading ∨ s.reader = .marking) ∧ s.Spent error s.inbox)
    (Q := fun s e => (s.apply e).hungUp = true) Nat.lt_wfRel.wf
    (fun s => if s.reader = .reading then 1 else 0) (fun _ => .step .reader) ?_ hfair hwriter
    ⟨ht, hread, hend⟩).imp fun j hj => hj.2
  rintro s e hwriter ⟨ht, hread, hend⟩
  by_cases he : e = .step .reader
  · subst he
    rcases hread with hread | hread
    · obtain ⟨rest, hrec⟩ := hend hread
      have habort := ht.aborted hwriter
      have hmarking : (s.apply (.step .reader)).reader = .marking := by
        cases error <;> simp [apply, step, readerStep, hread, habort, hrec, note]
      have hdone : (s.apply (.step .reader)).Spent error (s.apply (.step .reader)).inbox :=
        fun hread => by rw [hmarking] at hread; cases hread
      refine .inr ⟨⟨ht.apply _, .inr hmarking, hdone⟩, .inl ?_⟩
      rw [hmarking, hread, if_neg (by decide), if_pos rfl]
      exact Nat.zero_lt_one
    · exact .inl (by simp [apply, step, readerStep, hread])
  · have hreader := reader_apply ht.lined he
    refine .inr ⟨⟨ht.apply e, hreader.symm ▸ hread, fun hread => ?_⟩,
      .inr ⟨by rw [hreader], rfl, he⟩⟩
    obtain ⟨rest, hrec⟩ := hend (hreader ▸ hread)
    rw [inbox_apply he]
    exact receive_extends hrec Frame.Received.noConfusion e

/-! ## One reply for each request

Replies are sent by tasks of their own and may overtake each other, hence a permutation. -/

/-- The frames of refusals among `out`, in the order in which they are on the wire. -/
def replies (out : List Dispatch) : List Dispatch := out.filter (·.refusal.isSome)

def replyTo (asked : List Rpc.ServerRequest) (k : Nat) : List UInt8 :=
  (asked[k]?).elim [] fun request => (refusalOf request).payload

theorem map_replyTo_range (asked : List Rpc.ServerRequest) :
    (List.range asked.length).map (replyTo asked) =
      asked.map fun request => (refusalOf request).payload := by
  refine List.ext_getElem (by simp) fun k hk hk' => ?_
  have hlt : k < asked.length := by simpa using hk'
  simp [replyTo, hlt]

variable {asked : List Rpc.ServerRequest} {out : List Dispatch}

theorem map_payload_replies
    (h : ∀ d ∈ out, ∀ k, d.refusal = some k → d.payload = replyTo asked k) :
    (replies out).map (·.payload) = (out.filterMap Dispatch.refusal).map (replyTo asked) := by
  induction out with
  | nil => rfl
  | cons d out ih =>
    have hrest := ih fun d' hd' => h d' (List.mem_cons_of_mem d hd')
    rw [replies] at hrest ⊢
    cases hd : d.refusal with
    | none =>
      rw [List.filter_cons_of_neg (by simp [hd]), List.filterMap_cons_none hd]
      exact hrest
    | some k =>
      rw [List.filter_cons_of_pos (by simp [hd]), List.filterMap_cons_some hd, List.map_cons,
        List.map_cons, hrest, h d List.mem_cons_self k hd]

/-- When no refusal is under way, there is one reply for each request, and no other. -/
theorem Replying.perm (h : Replying s asked out) (hwriter : s.writer = true)
    (hdone : ∀ k, s.refusals.get? k = none) :
    ((replies out).map (·.payload)).Perm (asked.map fun request => (refusalOf request).payload) := by
  have hpayload : ∀ d ∈ out, ∀ k, d.refusal = some k → d.payload = replyTo asked k := by
    intro d hd k hdk
    obtain ⟨-, request, hrequest, heq⟩ := h.answered d hd k hdk
    rw [heq, replyTo, hrequest]
    rfl
  have hnumbers : (out.filterMap Dispatch.refusal).Perm (List.range asked.length) := by
    refine (List.perm_ext_iff_of_nodup h.once List.nodup_range).mpr fun k => ?_
    rw [List.mem_range]
    constructor
    · intro hk
      obtain ⟨d, hd, hdk⟩ := List.mem_filterMap.mp hk
      obtain ⟨-, request, hrequest, -⟩ := h.answered d hd k hdk
      exact (List.getElem?_eq_some_iff.mp hrequest).1
    · intro hlt
      refine (h.spared hwriter k hlt).resolve_left ?_
      rw [hdone k]
      nofun
  rw [map_payload_replies hpayload, ← map_replyTo_range]
  exact hnumbers.map _

theorem purpose_of_posted {d : Dispatch} (hd : d ∈ s.posted e) :
    (∃ k, d.task = .refusal k) ∨ ∃ purpose, d.purpose = some purpose := by
  cases e with
  | step t =>
    cases t with
    | call n =>
      cases hn : s.stageOf n with
      | none =>
        rw [posted, hn] at hd
        cases hd
      | some stage =>
        rw [posted_call hn, Stage.posted.eq_def] at hd
        split at hd
        · exact .inr ⟨_, congrArg Dispatch.purpose (List.mem_singleton.mp hd)⟩
        · exact .inr ⟨_, congrArg Dispatch.purpose (List.mem_singleton.mp hd)⟩
        · cases hd
    | refusal k =>
      cases hk : s.refusals.get? k with
      | none =>
        rw [posted, hk] at hd
        cases hd
      | some stage =>
        rw [posted_refusal hk, RefusalStage.posted.eq_def] at hd
        split at hd
        · exact .inl ⟨k, congrArg Dispatch.task (List.mem_singleton.mp hd)⟩
        · cases hd
    | reader => cases hd
  | _ => cases hd

theorem purpose_of_dispatch {d : Dispatch} (hd : d ∈ s.dispatches events) :
    (∃ k, d.task = .refusal k) ∨ ∃ purpose, d.purpose = some purpose := by
  induction events generalizing s with
  | nil => cases hd
  | cons e events ih => exact (List.mem_append.mp hd).elim purpose_of_posted ih

/-- A refusal tells the server that its request, which it names, is not supported. -/
theorem refusal_echoes {request : Rpc.ServerRequest} (h : Rpc.requestIn payload = some request) :
    ∃ v, Json.parse payload = .ok v ∧ v.get? "id" = some request.id ∧ request.id.isNull = false ∧
      ∃ message, Rpc.Message.ofPayload (refusalOf request).payload = .ok (.response
        { jsonrpc := "2.0", id := some request.id, result := none
          error := some { code := -32601, message, data := none } }) := by
  have hread : Rpc.Message.ofPayload payload = .ok (.serverRequest request) := by
    unfold Rpc.requestIn at h
    split at h
    · next hread => rw [hread, Option.some.inj h]
    · cases h
  obtain ⟨v, hparse, hget, hnull, henclosed⟩ := Rpc.id_of_serverRequest hread
  exact ⟨v, hparse, hget, hnull, _, Rpc.ofPayload_refusal henclosed ⟨by decide, by decide⟩ _⟩

/-! ## The fan-out -/

/-- The writer stays usable in a run without end: nobody takes it away, and the stream refuses no
reply. -/
def StaysUsable (s : Session) (σ : Nat → Event) : Prop :=
  ∀ j, (s.along σ j).writer = true ∧ ∀ k cause, σ j ≠ .refuse (.refusal k) cause

/-- What it means that the reader fans out what the server sends. Session `s` is what the run `events`
has made of `first`. -/
structure FansOut (first : Session) (events : List Event) (s : Session) : Prop where
  /-- The payloads that the reader has taken are the first ones of the server's stream. While it
  reads, it goes on right behind them; it stops where there is no frame, and nowhere else. -/
  reads : ∃ rest, Frame.Delivers (incoming events) (first.taken events) rest ∧
    (s.reader = .reading → s.inbox = rest) ∧
    (s.reader ≠ .reading → ∃ error rest', Frame.receive rest = (.failure error, rest'))
  /-- In a fair run it takes the next frame. -/
  goesOn : ∀ σ, Fair s σ → StaysUsable s σ → s.reader = .reading → ∀ payload rest,
    Frame.receive s.inbox = (.payload payload, rest) →
    ∃ j, (s.along σ j).takenBy (σ j) = some payload
  /-- Of these payloads the notifications are what has been fetched and what lies ready, in order. -/
  notices : s.receiver ≠ .discarded →
    first.fetched events ++ s.notices = (first.taken events).filterMap Rpc.noticeIn
  /-- Nothing else has been fetched, also if the receiver has been thrown away since. -/
  fetched : first.fetched events <+: (first.taken events).filterMap Rpc.noticeIn
  /-- What has been sent is the frames of the run: those of refusals, and requests and notifications of
  the client's own. -/
  sent : s.sent = (first.dispatches events).map (·.payload)
  own : ∀ d ∈ first.dispatches events, (∃ k, d.task = .refusal k) ∨
    ∃ purpose, d.purpose = some purpose ∧ purpose.Says first.view.greeting d.payload d.id
  /-- Every frame that answers the server answers one of the requests among them, and no two frames
  answer the same one. -/
  answers : ∀ d ∈ first.dispatches events, ∀ k, d.task = .refusal k →
    ∃ request, ((first.taken events).filterMap Rpc.requestIn)[k]? = some request ∧
      d.payload = (refusalOf request).payload
  once : ((first.dispatches events).filterMap Dispatch.refusal).Nodup
  /-- All requests are answered unless their refusals are under way. -/
  answered : (∀ k, s.refusals.get? k = none) →
    ((replies (first.dispatches events)).map (·.payload)).Perm
      (((first.taken events).filterMap Rpc.requestIn).map fun request => (refusalOf request).payload)
  /-- In a fair run every request is answered. -/
  comes : ∀ σ, Fair s σ → StaysUsable s σ → ∀ k request,
    ((first.taken events).filterMap Rpc.requestIn)[k]? = some request →
    k ∈ (first.dispatches events).filterMap Dispatch.refusal ∨
      ∃ j, (s.along σ j).posted (σ j) = [⟨.refusal k, none, none, (refusalOf request).payload⟩]
  /-- An answer reads as a response that echoes the identifier of the request, which is not null, and
  says that the method is not found. -/
  echoes : ∀ payload ∈ first.taken events, ∀ request, Rpc.requestIn payload = some request →
    ∃ v, Json.parse payload = .ok v ∧ v.get? "id" = some request.id ∧ request.id.isNull = false ∧
      ∃ message, Rpc.Message.ofPayload (refusalOf request).payload = .ok (.response
        { jsonrpc := "2.0", id := some request.id, result := none
          error := some { code := -32601, message, data := none } })
  /-- The session is marked as hung up by the step that follows the one at which the reader stops. -/
  marked : s.hungUp = true ↔ s.reader = .clearing ∨ s.reader = .ended
  /-- In a fair run the end of the stream, or a fault in it, is marked. -/
  hangsUp : ∀ σ, Fair s σ → StaysUsable s σ → ∀ error, s.Spent error s.inbox →
    ∃ j, (s.along σ j).hungUp = true
  /-- From there on no octet of the stream makes a difference: none that is left, and none that still
  arrives. -/
  unread : ∀ error inbox, s.Spent error s.inbox → s.Spent error inbox → ∀ later,
    ∃ unread, (s.withInbox inbox).run later =
      (s.run (later.filter fun e => !e.isIncoming)).withInbox unread

section Start

variable (settings : SessionSettings) (filter : DocumentFilter) (label : String)
  (processId now : Nat)

theorem reading_start : Reading (start settings filter label processId now) ⟨[], .ongoing⟩ [] := by
  refine ⟨⟨⟨[], .ongoing⟩, .nothing, fun _ => rfl, fun h => absurd rfl h⟩, ?_⟩
  exact ⟨Bool.noConfusion, fun h => h.elim ReaderStage.noConfusion ReaderStage.noConfusion⟩

theorem noticed_start : Noticed (start settings filter label processId now) [] [] :=
  ⟨fun _ => rfl, List.prefix_rfl⟩

theorem replying_start : Replying (start settings filter label processId now) [] [] where
  count := rfl
  underway := fun k stage hk => by cases hk
  answered := List.forall_mem_nil _
  once := List.nodup_nil
  spared := fun _ k hk => absurd hk (Nat.not_lt_zero k)

end Start

/-- As long as the writer is usable, the reader fans out what the server sends, whatever it is and in
whatever pieces it comes. -/
theorem reader_fans_out (settings : SessionSettings) (filter : DocumentFilter) (label : String)
    (processId now : Nat) (events : List Event)
    (hwriter : ((start settings filter label processId now).run events).writer = true)
    (hstream : ∀ k cause, .refuse (.refusal k) cause ∉ events) :
    FansOut (start settings filter label processId now) events
      ((start settings filter label processId now).run events) := by
  have htended := tended_start settings filter label processId now
  have hreading := reading_start settings filter label processId now
  have hnoticed := noticed_start settings filter label processId now
  have hreplying := replying_start settings filter label processId now
  have hread := hreading.run htended hwriter
  have hnotes := hnoticed.run events
  have hreply := hreplying.run htended.lined hstream
  have hafter := htended.run events
  have hsent := sent_run htended.lined events
  have hgenuine := dispatches_genuine htended.lined
    (genuine_start settings filter label processId now) events
  generalize (start settings filter label processId now).run events = s at *
  simp only [List.nil_append] at hread hnotes hreply
  have hcomes : ∀ {σ : Nat → Event} {k : Nat} {request : Rpc.ServerRequest}, Fair s σ →
      StaysUsable s σ → ((start settings filter label processId now).taken events |>.filterMap
        Rpc.requestIn)[k]? = some request → (s.refusals.get? k).isSome = true →
      ∃ j, (s.along σ j).posted (σ j) =
        [⟨.refusal k, none, none, (refusalOf request).payload⟩] := by
    intro σ k request hfair husable hrequest hk
    obtain ⟨stage, hk⟩ := Option.isSome_iff_exists.mp hk
    obtain ⟨request', hrequest', hanswers⟩ := hreply.underway k stage hk
    obtain rfl := Option.some.inj (hrequest.symm.trans hrequest')
    exact refusal_leads_to_reply hafter.lined hk hanswers hfair (fun j => (husable j).1)
      fun j cause => (husable j).2 k cause
  exact {
    reads := hread.delivers
    goesOn := fun σ hfair husable hreader payload rest hrec =>
      payload_leads_to_taken hafter hreader ⟨rest, hrec⟩ hfair fun j => (husable j).1
    notices := hnotes.ready
    fetched := hnotes.first
    sent := hsent
    own := fun d hd => (purpose_of_dispatch hd).imp_right fun ⟨purpose, hpurpose⟩ =>
      ⟨purpose, hpurpose, hgenuine d hd purpose hpurpose⟩
    answers := fun d hd k hdk => (hreply.answered d hd k (by rw [Dispatch.refusal, hdk])).2
    once := hreply.once
    answered := hreply.perm hwriter
    comes := fun σ hfair husable k request hrequest => by
      have hspared := hreply.spared hwriter k (List.getElem?_eq_some_iff.mp hrequest).1
      rcases hspared with hk | hdone
      · exact .inr (hcomes hfair husable hrequest hk)
      · exact .inl hdone
    echoes := fun payload _ request hrequest => refusal_echoes hrequest
    marked := hread.marked
    hangsUp := fun σ hfair husable error hspent => by
      have hmark : s.reader = .reading ∨ s.reader = .marking → ∃ j, (s.along σ j).hungUp = true := by
        intro hreader
        obtain ⟨j, hup⟩ := failure_leads_to_mark hafter hreader hspent hfair fun j => (husable j).1
        exact ⟨j + 1, hup⟩
      cases hreader : s.reader with
      | reading => exact hmark (.inl hreader)
      | marking => exact hmark (.inr hreader)
      | clearing => exact ⟨0, hread.marked.mpr (.inl hreader)⟩
      | ended => exact ⟨0, hread.marked.mpr (.inr hreader)⟩
    unread := fun error inbox hspent hinbox later => run_unread hafter.lined later hspent hinbox }

theorem View.Course.deserted {h h' : View} {hs : List Happening} (hcourse : h.Course e hs out h')
    (hnobody : ∀ n, h.stage n = none) (hcall : ∀ n ask, e ≠ .call n ask) :
    h'.stage = h.stage ∧ h'.writer = h.writer := by
  have hnone : ∀ {n : Nat} {stage : Stage}, h.stage n ≠ some stage := fun hn => by
    rw [hnobody] at hn
    cases hn
  cases hcourse with
  | called hn => exact absurd rfl (hcall _ _)
  | dropped hn | moved hn hm | poured id hn | refused id hn => exact absurd hn hnone
  | _ => exact ⟨rfl, rfl⟩

theorem staysUsable_roundRobin (hl : Lined s) (hnobody : ∀ n, s.stageOf n = none)
    (hwriter : s.writer = true) : StaysUsable s roundRobin := by
  have hevent : ∀ j, (∀ n ask, roundRobin j ≠ .call n ask) ∧
      ∀ k cause, roundRobin j ≠ .refuse (.refusal k) cause := by
    intro j
    unfold roundRobin
    split <;> exact ⟨nofun, nofun⟩
  have hkeeps : ∀ j, Lined (s.along roundRobin j) ∧ (∀ n, (s.along roundRobin j).stageOf n = none) ∧
      (s.along roundRobin j).writer = true := by
    intro j
    induction j with
    | zero => exact ⟨hl, hnobody, hwriter⟩
    | succ j ih =>
      obtain ⟨hl', hnobody', hwriter'⟩ := ih
      obtain ⟨hstage, hsame⟩ := (course hl' (roundRobin j)).deserted hnobody' (hevent j).1
      exact ⟨hl'.apply _, fun n => (congrFun hstage n).trans (hnobody' n), hsame.trans hwriter'⟩
  exact fun j => ⟨(hkeeps j).2.2, (hevent j).2⟩

/-- The server asks for something, hangs up in the middle of the next frame, and is answered in the
end. -/
theorem request_is_answered :
    let events : List Event := [.drop 0,
      .arrive (Frame.encode "\x7b\"id\":\"a\",\"method\":\"m\"\x7d".toUTF8.toList), .step .reader,
      .arrive (Frame.header 5), .endStream .closed, .step .reader, .step .reader]
    let s := (start {} {} "custom" 0 0).run events
    s.writer = true ∧ s.hungUp = true ∧ ∃ request, request.method = "m" ∧
      ∃ j, (s.along roundRobin j).posted (roundRobin j) =
        [⟨.refusal 0, none, none, (refusalOf request).payload⟩] := by
  intro events s
  have hwriter : s.writer = true := by decide +kernel
  have hup : s.hungUp = true := by decide +kernel
  have hfans := reader_fans_out {} {} "custom" 0 0 events hwriter (by simp [events])
  have hasked : (((start {} {} "custom" 0 0).taken events).filterMap Rpc.requestIn)[0]?.any
      (·.method == "m") = true := by decide +kernel
  obtain ⟨request, hrequest, hmethod⟩ := (Option.any_eq_true _ _).mp hasked
  have hunanswered :
      ((start {} {} "custom" 0 0).dispatches events).filterMap Dispatch.refusal = [] := by
    decide +kernel
  have hempty : s.calls.entries.isEmpty = true := by decide +kernel
  have hnobody : ∀ n, s.stageOf n = none := by
    intro n
    rw [stageOf, Table.get?, List.isEmpty_iff.mp hempty]
    rfl
  have husable := staysUsable_roundRobin ((lined_start {} {} "custom" 0 0).run events) hnobody hwriter
  refine ⟨hwriter, hup, request, eq_of_beq hmethod, ?_⟩
  refine (hfans.comes roundRobin (roundRobin_fair s) husable 0 _ hrequest).resolve_left ?_
  rw [hunanswered]
  exact List.not_mem_nil

end Session

end LanguageClient
