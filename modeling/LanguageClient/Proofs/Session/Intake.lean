import LanguageClient.Proofs.Frame.Deliveries
import LanguageClient.Proofs.Session.Course
import LanguageClient.Proofs.Session.Masking

/-!
# What only the reader deals with

Of everything that goes on inside a session only the reader touches the intake, and only while it is
reading (`apply_withIntake`). So it makes no difference what is left to read once the reader has
stopped, nor what still arrives, nor even what lies behind the fault at which it is going to stop: a
run goes the same way with other octets, or with none (`run_unread`).
-/

namespace LanguageClient.Session

def Event.isIncoming : Event → Bool
  | .arrive _ | .endStream _ => true
  | _ => false

/-! ## Octets that nobody reads -/

variable {s : Session}

variable {e : Event} {error : FramingError} {inbox : Frame.Stream}

theorem reader_apply (hl : Lined s) (he : e ≠ .step .reader) :
    (s.apply e).reader = s.reader :=
  (course hl e).reader_eq.resolve_right fun h => he h.1

/-- What an event adds to the server's stream. Nothing comes behind the end of a stream. -/
def Event.extends (stream : Frame.Stream) : Event → Frame.Stream
  | .arrive bytes => if stream.ending = .ongoing then stream.grow bytes .ongoing else stream
  | .endStream ending => if stream.ending = .ongoing then stream.grow [] ending else stream
  | _ => stream

theorem Event.extends_inner (h : e.isIncoming = false) (stream : Frame.Stream) :
    e.extends stream = stream := by
  cases e with
  | arrive bytes => cases h
  | endStream ending => cases h
  | _ => rfl

/-- What the reader finds at the front of a stream, a frame or a fault, is there for good. -/
theorem receive_extends {stream rest : Frame.Stream} {received : Frame.Received}
    (h : Frame.receive stream = (received, rest)) (hfound : received ≠ .waiting) (e : Event) :
    ∃ rest', Frame.receive (e.extends stream) = (received, rest') := by
  have hgrow : ∀ more ending, stream.ending = .ongoing →
      ∃ rest', Frame.receive (stream.grow more ending) = (received, rest') := by
    intro more ending hongoing
    refine ⟨rest.grow more ending, ?_⟩
    rw [Frame.receive_grow hongoing (by rw [h]; exact hfound), h]
  cases e with
  | arrive bytes | endStream ending =>
    simp only [Event.extends]
    split
    · next hongoing => exact hgrow _ _ hongoing
    · exact ⟨rest, h⟩
  | _ => exact ⟨rest, h⟩

def withInbox (s : Session) (inbox : Frame.Stream) : Session := { s with inbox }

/-- The session with other octets to read, after more has been told. -/
def beside (s : Session) (inbox : Frame.Stream) (told : List Log.Event) : Session :=
  (s.withInbox inbox).preface told

theorem apply_incoming (h : e.isIncoming = true) (s : Session) :
    s.apply e = s.withInbox (e.extends s.inbox) := by
  cases e with
  | arrive bytes =>
    simp only [apply, Event.extends]
    split
    · next hongoing => simp [arrive, withInbox, Frame.Stream.grow, hongoing]
    · rfl
  | endStream ending =>
    simp only [apply, Event.extends]
    split
    · simp [endStream, withInbox, Frame.Stream.grow]
    · rfl
  | _ => cases h

/-- Nobody but a reader that reads looks at what is to be read, and nobody looks at the log. -/
theorem apply_beside (hincoming : e.isIncoming = false)
    (hread : e = .step .reader → s.reader = .reading → s.readerAborted = true)
    (inbox : Frame.Stream) (told : List Log.Event) :
    (s.beside inbox told).apply e = (s.apply e).beside inbox told := by
  by_cases hreading : e = .step .reader ∧ s.reader = .reading
  · obtain ⟨rfl, hreading⟩ := hreading
    have habort := hread rfl hreading
    have hreading' : (s.beside inbox told).reader = .reading := hreading
    have habort' : (s.beside inbox told).readerAborted = true := habort
    simp only [apply, step, readerStep, hreading, hreading', habort, habort']
    rfl
  · have hnot : e = .step .reader → s.reader ≠ .reading := fun he hr => hreading ⟨he, hr⟩
    cases hinner : e.isInner with
    | true =>
      have hsame : (s.apply e).intake = s.intake := intake_apply s hinner hnot
      have hmask : (s.apply e).beside inbox told =
          (s.apply e).masked ⟨{ (s.apply e).intake with inbox }, told⟩ := rfl
      rw [hmask, hsame]
      exact apply_masked s ⟨{ s.intake with inbox }, told⟩ hinner hnot
    | false =>
      cases e with
      | takeNotices | fetchNotices =>
        simp only [apply, apply_ite fun s : Session => s.beside inbox told]; rfl
      | discardNotices => rfl
      | arrive bytes => cases hincoming
      | endStream ending => cases hincoming
      | _ => cases hinner

/-- Nothing looks at the inbox but the reader. -/
theorem apply_withInbox (h : e.isIncoming = false) (hread : e = .step .reader → s.reader ≠ .reading)
    (inbox : Frame.Stream) :
    (s.withInbox inbox).apply e = (s.apply e).withInbox inbox :=
  apply_beside h (fun he hr => absurd hr (hread he)) inbox []

theorem inbox_apply (he : e ≠ .step .reader) :
    (s.apply e).inbox = e.extends s.inbox := by
  cases hincoming : e.isIncoming with
  | true => rw [apply_incoming hincoming, withInbox]
  | false =>
    have hsame : s.apply e = (s.apply e).withInbox s.inbox :=
      apply_withInbox hincoming (fun h => absurd h he) s.inbox
    rw [e.extends_inner hincoming, hsame, withInbox]

/-- The reader does not read, or will find no frame. -/
def Spent (s : Session) (error : FramingError) (inbox : Frame.Stream) : Prop :=
  s.reader = .reading → ∃ rest, Frame.receive inbox = (.failure error, rest)

theorem readerStep_spent (h : s.Spent error s.inbox) (hinbox : s.Spent error inbox) :
    (∃ unread, (s.withInbox inbox).apply (.step .reader) =
        (s.apply (.step .reader)).withInbox unread) ∧
      (s.apply (.step .reader)).reader ≠ .reading := by
  cases hread : s.reader with
  | reading =>
    obtain ⟨rest, hrec⟩ := h hread
    obtain ⟨unread, hrec'⟩ := hinbox hread
    have hread' : (s.withInbox inbox).reader = .reading := hread
    cases habort : s.readerAborted with
    | true =>
      have habort' : (s.withInbox inbox).readerAborted = true := habort
      refine ⟨⟨inbox, ?_⟩, by simp [apply, step, readerStep, hread, habort]⟩
      simp only [apply, step, readerStep, hread, hread', habort, habort', if_true, Option.getD_some]
      rfl
    | false =>
      have habort' : (s.withInbox inbox).readerAborted = false := habort
      have hrec'' : Frame.receive (s.withInbox inbox).inbox = (.failure error, unread) := hrec'
      refine ⟨⟨unread, ?_⟩, ?_⟩
      · cases error <;>
          simp only [apply, step, readerStep, hread, hread', habort, habort', hrec, hrec'',
            if_false, Bool.false_eq_true, Option.getD_some] <;> rfl
      · cases error <;> simp [apply, step, readerStep, hread, habort, hrec, note]
  | _ =>
    have hstopped : s.reader ≠ .reading := by rw [hread]; decide
    refine ⟨⟨inbox, apply_withInbox rfl (fun _ => hstopped) inbox⟩, ?_⟩
    simp only [apply, step, readerStep, hread]
    first
    | split <;> simp [note]
    | simp [hread]

theorem apply_spent (hl : Lined s) (h : s.Spent error s.inbox) (hinbox : s.Spent error inbox)
    (hincoming : e.isIncoming = false) :
    ∃ inbox', (s.withInbox inbox).apply e = (s.apply e).withInbox inbox' ∧
      (s.apply e).Spent error (s.apply e).inbox ∧ (s.apply e).Spent error inbox' := by
  by_cases he : e = .step .reader
  · subst he
    obtain ⟨⟨unread, happly⟩, hstopped⟩ := readerStep_spent h hinbox
    exact ⟨unread, happly, fun hread => absurd hread hstopped, fun hread => absurd hread hstopped⟩
  · have hreader := reader_apply hl he
    refine ⟨inbox, apply_withInbox hincoming (fun h => absurd h he) inbox, fun hread => ?_,
      fun hread => hinbox (hreader ▸ hread)⟩
    rw [inbox_apply he, e.extends_inner hincoming]
    exact h (hreader ▸ hread)

/-- Once the reader has stopped, or has come to the fault at which it is going to stop, it makes no
difference what is left to read, nor what still arrives: the session takes the same course without
it. -/
theorem run_unread (hl : Lined s) (later : List Event) (h : s.Spent error s.inbox)
    (hinbox : s.Spent error inbox) :
    ∃ unread, (s.withInbox inbox).run later =
      (s.run (later.filter fun e => !e.isIncoming)).withInbox unread := by
  induction later generalizing s inbox with
  | nil => exact ⟨inbox, rfl⟩
  | cons e later ih =>
    cases hincoming : e.isIncoming with
    | true =>
      have hmore : s.Spent error (e.extends inbox) := fun hread => by
        obtain ⟨rest, hrec⟩ := hinbox hread
        exact receive_extends hrec nofun e
      obtain ⟨unread, hrun⟩ := ih hl h hmore
      refine ⟨unread, ?_⟩
      rw [List.filter_cons_of_neg (by simp [hincoming]), ← hrun]
      exact congrArg (run · later) (apply_incoming hincoming (s.withInbox inbox))
    | false =>
      obtain ⟨inbox', happly, h', hinbox'⟩ := apply_spent hl h hinbox hincoming
      obtain ⟨unread, hrun⟩ := ih (hl.apply e) h' hinbox'
      refine ⟨unread, ?_⟩
      rw [List.filter_cons_of_pos (by simp [hincoming])]
      exact (congrArg (run · later) happly).trans hrun

end LanguageClient.Session
