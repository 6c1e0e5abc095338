import LanguageClient.Proofs.Frame.Insertions
import LanguageClient.Proofs.Session.FanOut

/-!
# Messages that concern nobody

A payload that is no message, and a response that answers no request that waits, concern nobody: they
are *noise*. Whoever puts frames with noise between the frames of the server's stream changes nothing
but the log (`noise_does_not_matter`).

Two runs are compared, one with the insertions and one without. Each octet that arrives in the first
carries a mark (`Frame.Octet`), and a `Beat` is an event of that run; the same events make the second
run, but that only the octets without a mark arrive, and that the steps by which the reader takes
inserted frames are left out (`Hearing.quietly`). That the sessions agree is kept by every beat
(`Abreast.beat`), because of the three things that two readers can find (`Frame.Finds`): noise, which
leaves a line in the log; the same frame, which goes the same way in both sessions; and no frame, for
the same reason.
-/

namespace LanguageClient.Session

open LanguageClient.Frame (Octet heard meant mark Interleaved Strewn Finds)

variable {s noisy quiet : Session} {e : Event}

/-! ## Noise -/

/-- Whether a payload concerns nobody: it is no message, or it is a response that has the number of no
request that waits. -/
def isNoise (s : Session) (payload : List UInt8) : Bool :=
  match Rpc.Message.ofPayload payload with
  | .error _ => true
  | .ok (.response r) => s.pending.keys.all fun id => r.requestId != some (id : Int)
  | .ok _ => false

/-- Whether a line of the log says that something was discarded. -/
def tellsOfNoise (line : Log.Event) : Bool :=
  line.message == "discarding malformed message" ||
    line.message == "discarding response without a numeric id" ||
    line.message == "discarding response for unknown request"

theorem complete_noise {response : Rpc.Response}
    (h : (s.pending.keys.all fun id => response.requestId != some (id : Int)) = true) :
    ∃ line, tellsOfNoise line = true ∧ s.complete response = { s with log := s.log ++ [line] } := by
  rw [complete]
  split
  · exact ⟨_, rfl, rfl⟩
  · next id hid =>
    split
    · next n hget =>
      split at hget
      · next hpos =>
        -- The number is that of a request that waits.
        have hkey : id.toNat ∈ s.pending.keys :=
          List.mem_map_of_mem (f := (·.1)) (Table.mem_of_get? hget)
        have hne := List.all_eq_true.mp h id.toNat hkey
        rw [hid, Int.toNat_of_nonneg hpos, bne_self_eq_false] at hne
        cases hne
      · cases hget
    · exact ⟨_, rfl, rfl⟩

variable {payload : List UInt8} {l l' : List Log.Event}

theorem handle_noise (h : s.isNoise payload = true) :
    ∃ line, tellsOfNoise line = true ∧ s.handle payload = { s with log := s.log ++ [line] } := by
  unfold isNoise at h
  rw [handle]
  split at h
  · next error hread =>
    rw [hread]
    exact ⟨_, rfl, rfl⟩
  · next response hread =>
    rw [hread]
    exact complete_noise h
  · cases h

/-! ## Sessions that differ in what is to be read and in the log -/

variable (s) in
theorem note_beside (inbox : Frame.Stream) (told : List Log.Event) (level : Log.Level)
    (message : String) (fields : List (String × Log.Value)) :
    (s.beside inbox told).note level message fields =
      (s.note level message fields).beside inbox told := by
  simp [note, beside, preface, withInbox]

variable (s) in
theorem deliver_beside (inbox : Frame.Stream) (told : List Log.Event) (n : Nat) (reply : Reply) :
    (s.beside inbox told).deliver n reply = (s.deliver n reply).beside inbox told := by
  have hsame : (s.beside inbox told).calls = s.calls := rfl
  unfold deliver
  simp only [hsame]
  split <;> rfl

variable (s) in
theorem handle_beside (inbox : Frame.Stream) (told : List Log.Event) (payload : List UInt8) :
    (s.beside inbox told).handle payload = (s.handle payload).beside inbox told := by
  unfold handle
  split
  · next response _ =>
    unfold complete
    split
    · exact note_beside s inbox told _ _ _
    · next id hid =>
      have hsame : (s.beside inbox told).pending = s.pending := rfl
      simp only [hsame]
      split
      · next n _ =>
        exact deliver_beside { s with pending := s.pending.erase id.toNat } inbox told n _
      · exact note_beside s inbox told _ _ _
  · rfl
  · have hsame : (s.beside inbox told).receiver = s.receiver := rfl
    simp only [hsame, note_beside, apply_ite fun s : Session => s.beside inbox told]
    rfl
  · exact note_beside s inbox told _ _ _

/-- What the reader does about what it has found in front of the stream. -/
def meets (s : Session) : Frame.Received → Session
  | .waiting => s
  | .payload payload => s.handle payload
  | .failure .closed => { s with reader := .marking }.note .debug "server closed the stream" []
  | .failure e =>
    { s with reader := .marking }.note .warn "reading from server failed"
      [("error", .shown e.message)]

theorem apply_reading (hread : s.reader = .reading) (habort : s.readerAborted = false) :
    s.apply (.step .reader) =
      (s.withInbox (Frame.receive s.inbox).2).meets (Frame.receive s.inbox).1 := by
  cases hrec : Frame.receive s.inbox with
  | mk received inbox =>
    cases received with
    | waiting =>
      obtain rfl : s.inbox = inbox :=
        congrArg Prod.snd ((Frame.receive_of_waiting (by rw [hrec])).symm.trans hrec)
      have happly : s.apply (.step .reader) = s := by
        simp [apply, step, readerStep, hread, habort, hrec]
      rw [happly]
      rfl
    | payload payload =>
      simp [apply, step, readerStep, hread, habort, hrec, meets, withInbox]
    | failure error =>
      cases error <;> simp [apply, step, readerStep, hread, habort, hrec, meets, withInbox]

variable (s) in
theorem meets_beside (inbox : Frame.Stream) (told : List Log.Event) (received : Frame.Received) :
    (s.beside inbox told).meets received = (s.meets received).beside inbox told := by
  cases received with
  | waiting => rfl
  | payload payload => exact handle_beside s inbox told payload
  | failure error =>
    cases error <;> exact note_beside { s with reader := .marking } inbox told _ _ _

/-! ## Agreement

The logs need not be equal, since noise is told of. That nothing else is told is the second half of
`Overtold`. -/

/-- One log has the lines of the other, in the same order, and besides lines that tell of noise. -/
structure Overtold (noisy quiet : List Log.Event) : Prop where
  sublist : quiet.Sublist noisy
  noise : noisy.filter (!tellsOfNoise ·) = quiet.filter (!tellsOfNoise ·)

theorem Overtold.append (h : Overtold l l') (more : List Log.Event) :
    Overtold (l ++ more) (l' ++ more) :=
  ⟨h.sublist.append (List.Sublist.refl more),
    by rw [List.filter_append, List.filter_append, h.noise]⟩

theorem Overtold.concat {line : Log.Event} (h : Overtold l l') (hline : tellsOfNoise line = true) :
    Overtold (l ++ [line]) l' :=
  ⟨h.sublist.trans (List.sublist_append_left l [line]),
    by simp [List.filter_append, hline, h.noise]⟩

/-- Two sessions are the same but for what is to be read and for lines in the log that tell of
noise. -/
structure Agree (noisy quiet : Session) : Prop where
  same : noisy = { quiet with inbox := noisy.inbox, log := noisy.log }
  log : Overtold noisy.log quiet.log

theorem agree_beside (h : Overtold l l') (s : Session) (i i' : Frame.Stream) :
    Agree (s.beside i l) (s.beside i' l') :=
  ⟨rfl, h.append s.log⟩

theorem Agree.common (h : Agree noisy quiet) :
    ∃ (s : Session) (i i' : Frame.Stream) (l l' : List Log.Event),
      noisy = s.beside i l ∧ quiet = s.beside i' l' ∧ Overtold l l' := by
  refine ⟨{ quiet with log := [] }, noisy.inbox, quiet.inbox, noisy.log, quiet.log, ?_, ?_, h.log⟩
  · refine h.same.trans ?_
    simp [beside, withInbox, preface]
  · simp [beside, withInbox, preface]

theorem Agree.reader (h : Agree noisy quiet) : quiet.reader = noisy.reader :=
  (congrArg Session.reader h.same).symm

theorem Agree.readerAborted (h : Agree noisy quiet) : quiet.readerAborted = noisy.readerAborted :=
  (congrArg Session.readerAborted h.same).symm

theorem Agree.hears {e' : Event} (h : Agree noisy quiet) (he : e.isIncoming = true)
    (he' : e'.isIncoming = true) : Agree (noisy.apply e) (quiet.apply e') := by
  obtain ⟨s, i, i', l, l', rfl, rfl, hlog⟩ := h.common
  rw [apply_incoming he, apply_incoming he']
  exact agree_beside hlog s _ _

theorem Agree.other (h : Agree noisy quiet) (hincoming : e.isIncoming = false)
    (hread : e = .step .reader → noisy.reader = .reading → noisy.readerAborted = true) :
    Agree (noisy.apply e) (quiet.apply e) := by
  obtain ⟨s, i, i', l, l', rfl, rfl, hlog⟩ := h.common
  have hread' : e = .step .reader → s.reader = .reading → s.readerAborted = true := hread
  rw [apply_beside hincoming hread', apply_beside hincoming hread']
  exact agree_beside hlog _ _ _

theorem Agree.reads (h : Agree noisy quiet) (hread : noisy.reader = .reading)
    (habort : noisy.readerAborted = false)
    (hsame : (Frame.receive quiet.inbox).1 = (Frame.receive noisy.inbox).1) :
    Agree (noisy.apply (.step .reader)) (quiet.apply (.step .reader)) := by
  rw [apply_reading hread habort,
    apply_reading (h.reader.trans hread) (h.readerAborted.trans habort), hsame]
  generalize (Frame.receive noisy.inbox).1 = received
  obtain ⟨s, i, i', l, l', rfl, rfl, hlog⟩ := h.common
  have hbeside : ∀ (i j : Frame.Stream) (l : List Log.Event),
      ((s.beside i l).withInbox j).meets received = (s.meets received).beside j l :=
    fun i j l => meets_beside s j l received
  rw [hbeside, hbeside]
  exact agree_beside hlog _ _ _

theorem Agree.noise (h : Agree noisy quiet) (htaken : noisy.takenBy e = some payload)
    (hnoise : noisy.isNoise payload = true) :
    Agree (noisy.apply e) quiet := by
  obtain ⟨inbox, -, -, -, -, happly⟩ := apply_of_taken htaken
  have hnoise' : (noisy.withInbox inbox).isNoise payload = true := hnoise
  obtain ⟨line, hline, heq⟩ := handle_noise hnoise'
  rw [happly, heq]
  obtain ⟨s, i, i', l, l', rfl, rfl, hlog⟩ := h.common
  exact ⟨rfl, (hlog.append s.log).concat hline⟩

/-! ## Beats

The two runs have different numbers of steps, so the comparison goes along the beats and not along
the events. -/

def Event.isArrival : Event → Bool
  | .arrive _ => true
  | _ => false

/-- An event of the run with insertions. Of the octets that arrive it is known which were inserted. -/
inductive Beat where
  | arrives (octets : List Octet)
  | other (e : Event) (plain : e.isArrival = false)

namespace Beat

def octets : Beat → List Octet
  | .arrives octets => octets
  | .other _ _ => []

def event : Beat → Event
  | .arrives octets => .arrive (heard octets)
  | .other e _ => e

def meant : Beat → Event
  | .arrives octets => .arrive (Frame.meant octets)
  | .other e _ => e

def ends : Beat → Bool
  | .other (.endStream ending) _ => ending != .ongoing
  | _ => false

end Beat

/-- The octets that the server's stream brings before it ends. -/
def brought (script : List Beat) : List Octet :=
  (script.takeWhile (!·.ends)).flatMap Beat.octets

/-- The session of the run with insertions, and the octets that are to be read. -/
structure Hearing where
  session : Session
  unread : List Octet

namespace Hearing

def takesNoise (h : Hearing) (t : Beat) : Bool :=
  (h.session.takenBy t.event).isSome && h.unread.head?.any (·.inserted)

/-- What a beat makes of the session, and of what is to be read: after a frame has been taken, as many
octets as are left in the inbox. -/
def beat (h : Hearing) (t : Beat) : Hearing where
  session := h.session.apply t.event
  unread :=
    if (h.session.takenBy t.event).isSome then
      h.unread.drop (h.unread.length - (h.session.apply t.event).inbox.bytes.length)
    else if h.session.inbox.ending = .ongoing then h.unread ++ t.octets
    else h.unread

/-- The run without insertions: nobody takes what is not there. -/
def quietly (h : Hearing) : List Beat → List Event
  | [] => []
  | t :: script => (if h.takesNoise t then [] else [t.meant]) ++ (h.beat t).quietly script

/-- Whether the inserted frames that are read are noise when they are read. -/
def harmless (h : Hearing) : List Beat → Bool
  | [] => true
  | t :: script =>
    (!h.takesNoise t || (h.session.takenBy t.event).all h.session.isNoise) &&
      (h.beat t).harmless script

end Hearing

/-- The two runs at corresponding points: the sessions agree, and as long as the reader reads, it has
the same octets in front of it in both, but for insertions. The beats of `script` are still to come,
and behind them `more` octets. -/
structure Abreast (h : Hearing) (quiet : Session) (script : List Beat) (more : List Octet) :
    Prop where
  lined : Lined h.session
  agree : Agree h.session quiet
  streams : h.session.reader = .reading → ∃ coming,
    Strewn h.session.inbox quiet.inbox h.unread coming ∧
      (h.session.inbox.ending = .ongoing → coming = brought script ++ more)

variable {h : Hearing} {t : Beat} {script : List Beat} {more : List Octet}

theorem inbox_of_taken {inbox : Frame.Stream} (htaken : s.takenBy e = some payload)
    (hrec : Frame.receive s.inbox = (.payload payload, inbox)) : (s.apply e).inbox = inbox := by
  obtain ⟨inbox', -, -, -, hrec', happly⟩ := apply_of_taken htaken
  obtain rfl := (Prod.mk.inj (hrec.symm.trans hrec')).2
  rw [happly, (reader_handle _ payload).2.2.1]
  rfl

theorem unread_of_taken {rest : List Octet} {ending : Frame.Ending}
    (htaken : h.session.takenBy t.event = some payload) (hrest : rest <:+ h.unread)
    (hrec : Frame.receive h.session.inbox = (.payload payload, ⟨heard rest, ending⟩)) :
    (h.beat t).unread = rest := by
  have hinbox := inbox_of_taken htaken hrec
  obtain ⟨front, hfront⟩ := hrest
  simp only [Hearing.beat, htaken, Option.isSome_some, if_true, hinbox, ← hfront, heard]
  simp

theorem brought_cons (hends : t.ends = false) :
    brought (t :: script) = t.octets ++ brought script := by
  simp [brought, hends]

theorem takesNoise_of_untaken (htaken : h.session.takenBy t.event = none) :
    h.takesNoise t = false := by
  simp [Hearing.takesNoise, htaken]

theorem unread_of_untaken (htaken : h.session.takenBy t.event = none) :
    (h.beat t).unread =
      if h.session.inbox.ending = .ongoing then h.unread ++ t.octets else h.unread := by
  simp [Hearing.beat, htaken]

/-- What comes from the server comes to both streams. When it ends, nothing of what was to be
inserted is missing. -/
theorem strewn_extends {noisy quiet : Frame.Stream} {u coming : List Octet}
    (hstrewn : Strewn noisy quiet u coming)
    (hcoming : noisy.ending = .ongoing → coming = brought (t :: script) ++ more)
    (hended : t.ends = true → more = []) :
    ∃ coming', Strewn (t.event.extends noisy) (t.meant.extends quiet)
        (if noisy.ending = .ongoing then u ++ t.octets else u) coming' ∧
      ((t.event.extends noisy).ending = .ongoing → coming' = brought script ++ more) := by
  by_cases hongoing : noisy.ending = .ongoing
  · have hcoming := hcoming hongoing
    have hquiet : quiet.ending = .ongoing := hstrewn.ending.trans hongoing
    rw [if_pos hongoing]
    cases t with
    | arrives octets =>
      rw [hcoming, brought_cons rfl, List.append_assoc] at hstrewn
      simp only [Beat.event, Beat.meant, Event.extends, hquiet, hongoing, if_true]
      exact ⟨brought script ++ more, hstrewn.grow, fun _ => rfl⟩
    | other e plain =>
      rw [Beat.octets, List.append_nil]
      cases e with
      | endStream ending =>
        simp only [Beat.event, Beat.meant, Event.extends, hquiet, hongoing, if_true,
          Frame.Stream.grow, List.append_nil]
        refine ⟨coming, ⟨hstrewn.heard, hstrewn.meant, rfl, hstrewn.placed, fun hend => ?_⟩,
          fun hon => ?_⟩
        · have hends : Beat.ends (.other (.endStream ending) plain) = true := bne_iff_ne.mpr hend
          rw [hcoming, hended hends]
          simp [brought, hends]
        · obtain rfl : ending = .ongoing := hon
          rw [hcoming, brought_cons rfl]
          rfl
      | arrive bytes => cases plain
      | _ => exact ⟨coming, hstrewn, fun _ => hcoming⟩
  · have hquiet : quiet.ending ≠ .ongoing := fun hon => hongoing (hstrewn.ending ▸ hon)
    rw [if_neg hongoing]
    -- Nothing comes behind the end of a stream.
    have hsame : ∀ {e : Event} {stream : Frame.Stream}, stream.ending ≠ .ongoing →
        e.extends stream = stream := by
      intro e stream hend
      cases e with
      | arrive bytes => exact if_neg hend
      | endStream ending => exact if_neg hend
      | _ => rfl
    rw [hsame hongoing, hsame hquiet]
    exact ⟨coming, hstrewn, fun hon => absurd hon hongoing⟩

theorem Abreast.other (habreast : Abreast h quiet (t :: script) more)
    (hended : t.ends = true → more = []) (he : t.event ≠ .step .reader) :
    Abreast (h.beat t) (quiet.apply t.meant) script more where
  lined := habreast.lined.apply t.event
  agree := by
    cases t with
    | arrives octets =>
      have hmeant : (Event.arrive (meant octets)).isIncoming = true := rfl
      exact habreast.agree.hears (e := .arrive (heard octets)) rfl hmeant
    | other e plain =>
      cases hincoming : e.isIncoming with
      | true => exact habreast.agree.hears hincoming hincoming
      | false => exact habreast.agree.other hincoming fun heq => absurd heq he
  streams hread := by
    have hread' : h.session.reader = .reading :=
      (reader_apply habreast.lined he).symm.trans hread
    have he' : t.meant ≠ .step .reader := by
      cases t with
      | arrives octets => nofun
      | other e plain => exact he
    obtain ⟨coming, hstrewn, hcoming⟩ := habreast.streams hread'
    have hinbox : (h.beat t).session.inbox = t.event.extends h.session.inbox := inbox_apply he
    rw [hinbox, inbox_apply he', unread_of_untaken (takenBy_of_ne he)]
    exact strewn_extends hstrewn hcoming hended

theorem reader_of_stopped (h : s.reader = .reading → s.readerAborted = true) :
    (s.apply (.step .reader)).reader ≠ .reading := by
  cases hread : s.reader with
  | reading => simp [apply, step, readerStep, hread, h hread]
  | marking | ended => simp [apply, step, readerStep, hread]
  | clearing =>
    simp only [apply, step, readerStep, hread]
    split <;> simp [note]

theorem takenBy_of_stopped (h : s.reader = .reading → s.readerAborted = true) :
    s.takenBy (.step .reader) = none := by
  cases hread : s.reader with
  | reading => simp [takenBy, hread, h hread]
  | _ => simp [takenBy, hread]

theorem takenBy_of_nothing (h : ∀ payload, (Frame.receive s.inbox).1 ≠ .payload payload) :
    s.takenBy (.step .reader) = none := by
  cases htaken : s.takenBy (.step .reader) with
  | none => rfl
  | some payload =>
    obtain ⟨inbox, -, -, -, hrec, -⟩ := apply_of_taken htaken
    exact absurd (by rw [hrec]) (h payload)

theorem apply_of_nothing (hread : s.reader = .reading) (habort : s.readerAborted = false)
    (hnone : ∀ payload, (Frame.receive s.inbox).1 ≠ .payload payload)
    (hon : (s.apply (.step .reader)).reader = .reading) :
    (Frame.receive s.inbox).1 = .waiting := by
  rw [apply_reading hread habort] at hon
  cases hrec : (Frame.receive s.inbox).1 with
  | waiting => rfl
  | payload payload => exact absurd hrec (hnone payload)
  | failure error =>
    rw [hrec] at hon
    cases error <;> cases hon

theorem apply_of_waiting (hread : s.reader = .reading) (habort : s.readerAborted = false)
    (hwait : (Frame.receive s.inbox).1 = .waiting) : s.apply (.step .reader) = s := by
  rw [apply_reading hread habort, Frame.receive_of_waiting hwait]
  rfl

theorem Abreast.reads {plain : (Event.step .reader).isArrival = false}
    (habreast : Abreast h quiet (.other (.step .reader) plain :: script) more)
    (hnoise : h.takesNoise (.other (.step .reader) plain) = true →
      ∀ payload, h.session.takenBy (.step .reader) = some payload →
        h.session.isNoise payload = true) :
    Abreast (h.beat (.other (.step .reader) plain))
      (quiet.run (if h.takesNoise (.other (.step .reader) plain) then [] else [.step .reader]))
      script more := by
  have hbrought : brought (.other (.step .reader) plain :: script) = brought script :=
    brought_cons rfl
  have hlined := habreast.lined.apply (.step .reader)
  have hagree := habreast.agree
  by_cases hstop : h.session.reader = .reading → h.session.readerAborted = true
  · rw [takesNoise_of_untaken (takenBy_of_stopped hstop), if_neg Bool.false_ne_true]
    exact ⟨hlined, hagree.other (e := .step .reader) rfl fun _ => hstop,
      fun hread => absurd hread (reader_of_stopped hstop)⟩
  obtain ⟨hread, habort⟩ := Classical.not_imp.mp hstop
  rw [Bool.not_eq_true] at habort
  obtain ⟨coming, hstrewn, hcoming⟩ := habreast.streams hread
  rw [hbrought] at hcoming
  cases hstrewn.finds with
  | inserted hmark hrest hnoisy hstrewn' =>
    have htaken := takenBy_reading hread habort hnoisy
    have htakes : h.takesNoise (.other (.step .reader) plain) = true := by
      simp [Hearing.takesNoise, Beat.event, htaken, hmark]
    have hinbox := inbox_of_taken htaken hnoisy
    have hunread := unread_of_taken (t := .other (.step .reader) plain) htaken hrest hnoisy
    rw [if_pos htakes]
    refine ⟨hlined, hagree.noise htaken (hnoise htakes _ htaken), fun _ => ⟨coming, ?_, ?_⟩⟩
    · rw [hunread]
      exact hinbox ▸ hstrewn'
    · exact hinbox ▸ hcoming
  | own hmark hrest hnoisy hquiet hstrewn' =>
    have htaken := takenBy_reading hread habort hnoisy
    have htakes : h.takesNoise (.other (.step .reader) plain) = false := by
      simp [Hearing.takesNoise, hmark]
    have hinbox := inbox_of_taken htaken hnoisy
    have hinbox' := inbox_of_taken (takenBy_reading (hagree.reader.trans hread)
      (hagree.readerAborted.trans habort) hquiet) hquiet
    have hunread := unread_of_taken (t := .other (.step .reader) plain) htaken hrest hnoisy
    rw [htakes, if_neg Bool.false_ne_true]
    refine ⟨hlined, hagree.reads hread habort (by rw [hquiet, hnoisy]), fun _ => ⟨coming, ?_, ?_⟩⟩
    · rw [hunread]
      exact hinbox ▸ hinbox' ▸ hstrewn'
    · exact hinbox ▸ hcoming
  | nothing hnone hsame =>
    rw [takesNoise_of_untaken (takenBy_of_nothing hnone), if_neg Bool.false_ne_true]
    refine ⟨hlined, hagree.reads hread habort hsame, fun hon => ?_⟩
    have hwait := apply_of_nothing hread habort hnone hon
    have hnoisy : (h.beat (.other (.step .reader) plain)).session = h.session :=
      apply_of_waiting hread habort hwait
    have hquiet : quiet.run [.step .reader] = quiet :=
      apply_of_waiting (hagree.reader.trans hread) (hagree.readerAborted.trans habort)
        (hsame.trans hwait)
    have hunread : (h.beat (.other (.step .reader) plain)).unread = h.unread := by
      rw [unread_of_untaken (takenBy_of_nothing hnone)]
      simp [Beat.octets]
    rw [hnoisy, hquiet, hunread]
    exact ⟨coming, hstrewn, hcoming⟩

theorem Abreast.beat (habreast : Abreast h quiet (t :: script) more)
    (hended : t.ends = true → more = [])
    (hnoise : (!h.takesNoise t || (h.session.takenBy t.event).all h.session.isNoise) = true) :
    Abreast (h.beat t) (quiet.run (if h.takesNoise t then [] else [t.meant])) script more := by
  by_cases he : t.event = .step .reader
  · cases t with
    | arrives octets => cases he
    | other e plain =>
      obtain rfl : e = .step .reader := he
      refine habreast.reads fun htakes payload htaken => ?_
      have htaken' : h.session.takenBy (Beat.event (.other (.step .reader) plain)) = some payload :=
        htaken
      rw [htakes, htaken', Bool.not_true, Bool.false_or] at hnoise
      exact hnoise
  · rw [takesNoise_of_untaken (takenBy_of_ne he), if_neg Bool.false_ne_true]
    exact habreast.other hended he

/-! ## Runs -/

def Hearing.run (h : Hearing) (script : List Beat) : Hearing := script.foldl Hearing.beat h

theorem Hearing.session_run (h : Hearing) (script : List Beat) :
    (h.run script).session = h.session.run (script.map Beat.event) := by
  induction script generalizing h with
  | nil => rfl
  | cons t script ih => exact ih (h.beat t)

/-- The run without insertions comes by the points that correspond to those of the other. -/
theorem Hearing.quietly_append (h : Hearing) (before after : List Beat) :
    h.quietly (before ++ after) = h.quietly before ++ (h.run before).quietly after := by
  induction before generalizing h with
  | nil => rfl
  | cons t before ih =>
    rw [List.cons_append, quietly, ih, quietly, List.append_assoc]
    rfl

theorem Agree.fetchedBy (hagree : Agree h.session quiet) :
    h.session.fetchedBy t.event = quiet.fetched (if h.takesNoise t then [] else [t.meant]) := by
  by_cases htakes : h.takesNoise t = true
  · -- Whoever takes a frame fetches nothing.
    obtain ⟨payload, htaken⟩ := Option.isSome_iff_exists.mp (Bool.and_eq_true_iff.mp htakes).1
    obtain ⟨-, he, -⟩ := apply_of_taken htaken
    rw [if_pos htakes, he]
    rfl
  · rw [if_neg htakes, fetched, fetched, List.append_nil]
    cases t with
    | arrives octets => rfl
    | other e plain =>
      rw [Beat.event, Beat.meant, hagree.same]
      cases e <;> rfl

theorem fetched_append (s : Session) (before after : List Event) :
    s.fetched (before ++ after) = s.fetched before ++ (s.run before).fetched after := by
  induction before generalizing s with
  | nil => rfl
  | cons e before ih =>
    rw [List.cons_append, fetched, ih, fetched, List.append_assoc]
    rfl

theorem Abreast.run {before after : List Beat} (habreast : Abreast h quiet (before ++ after) more)
    (hended : (before ++ after).any Beat.ends = true → more = [])
    (hharmless : h.harmless (before ++ after) = true) :
    Abreast (h.run before) (quiet.run (h.quietly before)) after more ∧
      h.session.fetched (before.map Beat.event) = quiet.fetched (h.quietly before) := by
  induction before generalizing h quiet with
  | nil => exact ⟨habreast, rfl⟩
  | cons t before ih =>
    rw [List.cons_append, Hearing.harmless, Bool.and_eq_true] at hharmless
    rw [List.cons_append, List.any_cons, Bool.or_eq_true] at hended
    have hnext := habreast.beat (fun hends => hended (.inl hends)) hharmless.1
    obtain ⟨hlater, hfetched⟩ := ih hnext (fun hends => hended (.inr hends)) hharmless.2
    have hrun : quiet.run (h.quietly (t :: before)) =
        (quiet.run (if h.takesNoise t then [] else [t.meant])).run ((h.beat t).quietly before) :=
      List.foldl_append
    refine ⟨hrun ▸ hlater, ?_⟩
    rw [Hearing.quietly, fetched_append, ← hfetched, ← habreast.agree.fetchedBy]
    rfl

theorem abreast_start (settings : SessionSettings) (filter : DocumentFilter) (label : String)
    (processId now : Nat) (hplaced : Interleaved (brought script ++ more)) :
    Abreast ⟨start settings filter label processId now, []⟩
      (start settings filter label processId now) script more where
  lined := lined_start ..
  agree := ⟨rfl, List.Sublist.refl _, rfl⟩
  streams _ := ⟨brought script ++ more, ⟨rfl, rfl, rfl, hplaced, fun hend => absurd rfl hend⟩,
    fun _ => rfl⟩

/-- Noise does not matter. Whatever happens to a session, and whatever frames are put between the
frames of the server's stream, however all of it comes in pieces: if each of the inserted frames that
are read is noise when it is read, the session goes the same way as without them. At all
corresponding points the calls have come equally far and to the same outcomes, as many requests
wait, the stage is the same, the same notifications have been fetched or lie ready and the same octets
are on the wire; there is no difference at all but in what is to be read, and in lines of the log that
tell of noise. -/
theorem noise_does_not_matter (settings : SessionSettings) (filter : DocumentFilter)
    (label : String) (processId now : Nat) (script : List Beat) (more : List Octet)
    (hplaced : Interleaved (brought script ++ more))
    (hended : script.any Beat.ends = true → more = [])
    (hharmless : Hearing.harmless ⟨start settings filter label processId now, []⟩ script = true)
    (before : List Beat) (hbefore : before <+: script) :
    let s := start settings filter label processId now
    let still := Hearing.quietly ⟨s, []⟩
    let noisy := s.run (before.map Beat.event)
    let quiet := s.run (still before)
    still before <+: still script ∧
      noisy.calls = quiet.calls ∧
      noisy.inFlight = quiet.inFlight ∧
      noisy.state = quiet.state ∧
      s.fetched (before.map Beat.event) = s.fetched (still before) ∧
      noisy.notices = quiet.notices ∧
      noisy.wire = quiet.wire ∧
      noisy.sent = quiet.sent ∧
      noisy = { quiet with inbox := noisy.inbox, log := noisy.log } ∧
      quiet.log.Sublist noisy.log ∧
      noisy.log.filter (!tellsOfNoise ·) = quiet.log.filter (!tellsOfNoise ·) := by
  obtain ⟨after, rfl⟩ := hbefore
  intro s still noisy quiet
  obtain ⟨habreast, hfetched⟩ :=
    (abreast_start settings filter label processId now hplaced).run hended hharmless
  have hagree : Agree noisy quiet := by
    rw [show noisy = _ from (Hearing.session_run ⟨s, []⟩ before).symm]
    exact habreast.agree
  have hsame := hagree.same
  exact ⟨⟨_, (Hearing.quietly_append _ before after).symm⟩, by rw [hsame], by rw [hsame]; rfl,
    by rw [hsame], hfetched, by rw [hsame], by rw [hsame], by rw [hsame], hsame, hagree.log.sublist,
    hagree.log.noise⟩

/-- The frame of a response that a server could answer the first request with, under any number. -/
def responseFrame (id : Json) : List UInt8 :=
  Frame.encode (Rpc.Response.payload
    { jsonrpc := Rpc.version
      id := some id
      result := some (.obj [("capabilities", .obj [])])
      error := none })

/-- A session begins in the middle of noise: something that is no message, a response whose number is
a text, a response in two pieces to a request that was never made, and the answer a second time. -/
def noisyHandshake : List Beat :=
  let step (t : Task) : Beat := .other (.step t) rfl
  let writes : List Beat := [step (.call 0), .other (.accept (.call 0) 1000000) rfl, step (.call 0)]
  let strange := mark true (responseFrame (.num (.int 7)))
  [.arrives (mark true (Frame.encode "?".toUTF8.toList)), step .reader] ++
    List.replicate 4 (step (.call 0)) ++ writes ++
    [.arrives (mark true (responseFrame (.str "1")) ++ strange.take 9), step .reader, step .reader,
      .arrives (strange.drop 9 ++ mark false (responseFrame (.num (.int 1))) ++
        mark true (responseFrame (.num (.int 1)))),
      step .reader, step .reader, step .reader] ++
    List.replicate 2 (step (.call 0)) ++ writes

/-- The handshake succeeds in spite of four frames of noise, as it does without them. -/
theorem noise_does_not_matter_handshake :
    let s := start {} {} "custom" 0 0
    let noisy := s.run (noisyHandshake.map Beat.event)
    let quiet := s.run (Hearing.quietly ⟨s, []⟩ noisyHandshake)
    Hearing.harmless ⟨s, []⟩ noisyHandshake = true ∧
      noisyHandshake.length = (Hearing.quietly ⟨s, []⟩ noisyHandshake).length + 4 ∧
      noisy.log.length = quiet.log.length + 4 ∧
      noisy.state = .running ∧ noisy.state = quiet.state ∧ noisy.calls = quiet.calls ∧
      noisy.wire = quiet.wire := by
  intro s noisy quiet
  obtain ⟨hharmless, hlength, hlog, hrunning⟩ :
      Hearing.harmless ⟨s, []⟩ noisyHandshake = true ∧
      noisyHandshake.length = (Hearing.quietly ⟨s, []⟩ noisyHandshake).length + 4 ∧
      noisy.log.length = quiet.log.length + 4 ∧ noisy.state = .running := by
    decide +kernel
  have hplaced : Interleaved (brought noisyHandshake ++ []) := by
    have hframes : brought noisyHandshake ++ [] =
        mark true (Frame.encode "?".toUTF8.toList) ++
          (mark true (responseFrame (.str "1")) ++
            (mark true (responseFrame (.num (.int 7))) ++
              (mark false (responseFrame (.num (.int 1))) ++
                (mark true (responseFrame (.num (.int 1))) ++ [])))) := by
      decide +kernel
    rw [hframes]
    exact .encode (by decide +kernel) _ <| .encode (by decide +kernel) _ <|
      .encode (by decide +kernel) _ <| .encode (by decide +kernel) _ <|
      .encode (by decide +kernel) _ (.own nofun)
  obtain ⟨-, hcalls, -, hstate, -, -, hwire, -⟩ :=
    noise_does_not_matter {} {} "custom" 0 0 noisyHandshake [] hplaced (fun _ => rfl) hharmless
      noisyHandshake (List.prefix_refl _)
  exact ⟨hharmless, hlength, hlog, hrunning, hstate, hcalls, hwire⟩

end LanguageClient.Session
