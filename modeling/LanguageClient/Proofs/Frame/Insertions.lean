import LanguageClient.Proofs.Frame.Deliveries
import LanguageClient.Proofs.Frame.Grammar

/-!
# Frames put in between

Octets are a frame if they are a header block, ended by a blank line of its own, and a payload of the
announced length: neither more nor less. That is what one reading takes off a stream that goes on
(`isFrame_iff`). A reader that finds a frame in front takes it and nothing else, whatever is behind it
(`IsFrame.receive`), and a reader that finds a part of one waits (`IsFrame.waiting`).

So frames can be put between the frames of a stream. Each octet of the longer stream carries a mark
that says whether it has been put there (`Octet`), and `Interleaved` says that the marked octets are
whole frames at boundaries of frames. Two readers, one of either stream, then find the same things in
the same order, but that one of them finds the inserted frames besides (`Strewn.finds`).
-/

namespace LanguageClient.Frame

open Text

/-- The octets are one frame with this payload. -/
def IsFrame (octets payload : List UInt8) : Prop :=
  ∃ (headers : List Header) (blank : BlankLine),
    octets = headers.flatMap Header.octets ++ blank.octets ++ payload ∧
    lastLength none headers = some payload.length ∧ payload.length ≤ maxPayload ∧
    blank.ended = true

/-- A blank line with a line feed of its own ends a block on every stream, as the end of the stream
cannot. -/
theorem BlankLine.readBlock {blank : BlankLine} (hended : blank.ended = true) (ending : Ending)
    (length : Option Nat) (seen : Bool) (rest : List UInt8) :
    readBlock ending length seen [] (blank.octets ++ rest) = .ofLength length rest := by
  have hoctets : blank.octets = Utf8.encode blank.blanks ++ [0x0A] := by
    rw [BlankLine.octets, if_pos hended]
  have hfeed : 0x0A ∉ Utf8.encode blank.blanks := mt feed_mem_encode_iff.mp blank.feed
  have hread : Line.read (Utf8.encode blank.blanks ++ [0x0A]) = .blank := hoctets ▸ blank.read
  rw [hoctets, List.append_assoc, List.singleton_append, readBlock_line ending length seen hfeed,
    List.reverse_nil, List.nil_append, hread, afterLine]

variable {octets payload : List UInt8}

theorem IsFrame.receive (h : IsFrame octets payload) (rest : List UInt8) (ending : Ending) :
    receive ⟨octets ++ rest, ending⟩ = (.payload payload, ⟨rest, ending⟩) := by
  obtain ⟨headers, blank, rfl, hlength, hmax, hended⟩ := h
  have hblock : readBlock ending none false []
      (headers.flatMap Header.octets ++ blank.octets ++ payload ++ rest) =
        .complete payload.length (payload ++ rest) := by
    rw [List.append_assoc, List.append_assoc, readBlock_headers, blank.readBlock hended,
      ofLength_eq_complete]
    exact ⟨hlength, hmax, rfl⟩
  rw [Frame.receive]
  dsimp only
  rw [hblock]
  dsimp only
  rw [receivePayload, if_pos (by simp), List.take_left, List.drop_left]

theorem isFrame_of_receive
    (h : receive ⟨octets, .ongoing⟩ = (.payload payload, ⟨[], .ongoing⟩)) :
    IsFrame octets payload := by
  -- With an octet behind it, the end of the stream cannot stand in for the blank line.
  have hclosed : receive ⟨octets ++ [0], .closed⟩ = (.payload payload, ⟨[0], .closed⟩) := by
    have hgrow := receive_grow (s := ⟨octets, .ongoing⟩) rfl (by rw [h]; nofun) [0] .closed
    rwa [h] at hgrow
  rw [receive_eq_payload_iff, readBlock_eq_complete_iff] at hclosed
  obtain ⟨headers, blank, hoctets, hlength, hmax, hended⟩ := hclosed
  rw [← List.append_assoc] at hoctets
  exact ⟨headers, blank, List.append_cancel_right hoctets, hlength, hmax,
    hended.resolve_right (by simp)⟩

theorem isFrame_iff :
    IsFrame octets payload ↔
      receive ⟨octets, .ongoing⟩ = (.payload payload, ⟨[], .ongoing⟩) := by
  constructor
  · intro h
    have hreceive := h.receive [] .ongoing
    rwa [List.append_nil] at hreceive
  · exact isFrame_of_receive

/-- A part of a frame is waited with. -/
theorem IsFrame.waiting {rest : List UInt8} (h : IsFrame (octets ++ rest) payload)
    (hrest : rest ≠ []) : (Frame.receive ⟨octets, .ongoing⟩).1 = .waiting := by
  by_contra hfound
  have hgrow := receive_grow (s := ⟨octets, .ongoing⟩) rfl hfound rest .ongoing
  rw [Stream.grow, isFrame_iff.mp h] at hgrow
  have hbytes : [] = (Frame.receive ⟨octets, .ongoing⟩).2.bytes ++ rest :=
    congrArg (fun r : Received × Stream => r.2.bytes) hgrow
  exact hrest (List.append_eq_nil_iff.mp hbytes.symm).2

theorem isFrame_encode (h : payload.length ≤ maxPayload) : IsFrame (encode payload) payload := by
  have hreceive := receive_encode h [] .ongoing
  rw [List.append_nil] at hreceive
  exact isFrame_of_receive hreceive

theorem IsFrame.ne_nil (h : IsFrame octets payload) : octets ≠ [] := by
  rintro rfl
  cases isFrame_iff.mp h

/-! ## What one reading leaves -/

theorem readBlock_suffix {ending : Ending} {length : Option Nat} {seen : Bool}
    {line bytes rest : List UInt8} {n : Nat}
    (h : readBlock ending length seen line bytes = .complete n rest) : rest <:+ bytes := by
  induction bytes generalizing length seen line with
  | nil =>
    cases ending with
    | ongoing => cases h
    | failing cause => cases h
    | closed =>
      have hend : endOfBlock length seen line.reverse = .complete n rest := h
      unfold endOfBlock at hend
      split at hend
      · cases hend
      · split at hend
        · exact (ofLength_eq_complete.mp hend).2.2 ▸ List.suffix_refl []
        · cases hend
        · cases hend
  | cons b bytes ih =>
    rw [readBlock] at h
    split at h
    · split at h
      · exact (ofLength_eq_complete.mp h).2.2 ▸ List.suffix_cons b bytes
      · exact (ih h).trans (List.suffix_cons b bytes)
      · exact (ih h).trans (List.suffix_cons b bytes)
      · cases h
    · exact (ih h).trans (List.suffix_cons b bytes)

theorem suffix_of_payload {stream rest : Stream} (h : receive stream = (.payload payload, rest)) :
    rest.bytes <:+ stream.bytes := by
  rw [Frame.receive] at h
  split at h
  · next length behind hblock =>
    rw [receivePayload] at h
    split at h
    · obtain rfl := (Prod.mk.inj h).2
      exact (List.drop_suffix length behind).trans (readBlock_suffix hblock)
    · split at h <;> cases h
  all_goals cases h

theorem receive_of_waiting {stream : Stream} (h : (receive stream).1 = .waiting) :
    receive stream = (.waiting, stream) := by
  rw [Frame.receive] at h ⊢
  split at h
  · next length behind hblock =>
    rw [receivePayload] at h ⊢
    split at h
    · cases h
    · next hshort =>
      rw [if_neg hshort]
      split at h
      · rfl
      all_goals cases h
  · cases h
  · cases h
  · rfl

/-! ## Marked octets -/

/-- An octet of a stream, with a mark that says whether somebody has put it there. -/
structure Octet where
  value : UInt8
  inserted : Bool
  deriving DecidableEq, Repr

/-- The stream with what has been put into it. -/
def heard (marked : List Octet) : List UInt8 := marked.map (·.value)

/-- The stream without it. -/
def meant (marked : List Octet) : List UInt8 := heard (marked.filter (!·.inserted))

variable {u v front rest coming : List Octet} {inserted : Bool}

theorem heard_append (u v : List Octet) : heard (u ++ v) = heard u ++ heard v := List.map_append

theorem meant_append (u v : List Octet) : meant (u ++ v) = meant u ++ meant v := by
  rw [meant, List.filter_append, heard_append, meant, meant]

/-- Octets with the same mark are all there in the shorter stream, or none of them is. -/
theorem meant_of_marks (h : ∀ o ∈ u, o.inserted = inserted) :
    meant u = if inserted then [] else heard u := by
  cases inserted with
  | true => simpa [meant, heard] using h
  | false => rw [meant, List.filter_eq_self.mpr (by simpa using h)]; rfl

def mark (inserted : Bool) (octets : List UInt8) : List Octet := octets.map (⟨·, inserted⟩)

theorem heard_mark (inserted : Bool) (octets : List UInt8) :
    heard (mark inserted octets) = octets := by
  rw [heard, mark, List.map_map]
  exact List.map_id octets

theorem inserted_of_mem_mark {octets : List UInt8} {o : Octet} (h : o ∈ mark inserted octets) :
    o.inserted = inserted := by
  obtain ⟨b, -, rfl⟩ := List.mem_map.mp h
  rfl

/-- Whole frames have been put at boundaries of frames. Behind the last of them the stream may be
anything: it may end in the middle of a frame, or have no frames at all. -/
inductive Interleaved : List Octet → Prop where
  | own {u : List Octet} (h : ∀ o ∈ u, o.inserted = false) : Interleaved u
  | frame {front rest : List Octet} {payload : List UInt8} {inserted : Bool}
      (hframe : IsFrame (heard front) payload) (hmarks : ∀ o ∈ front, o.inserted = inserted)
      (hrest : Interleaved rest) : Interleaved (front ++ rest)

theorem Interleaved.encode (hfit : payload.length ≤ maxPayload) (inserted : Bool)
    (hrest : Interleaved rest) : Interleaved (mark inserted (encode payload) ++ rest) := by
  have hframe : IsFrame (heard (mark inserted (Frame.encode payload))) payload := by
    rw [heard_mark]
    exact isFrame_encode hfit
  exact .frame hframe (fun _ => inserted_of_mem_mark) hrest

/-- What can be in front of a stream of which the octets `u` have come, and `coming` have not. -/
inductive Front (u coming : List Octet) : Prop where
  | own (h : ∀ o ∈ u ++ coming, o.inserted = false)
  | frame {front rest : List Octet} {payload : List UInt8} {inserted : Bool}
      (heq : u = front ++ rest) (hframe : IsFrame (heard front) payload)
      (hmarks : ∀ o ∈ front, o.inserted = inserted) (hrest : Interleaved (rest ++ coming))
  | part {more : List Octet} {payload : List UInt8} {inserted : Bool} (hcoming : coming ≠ [])
      (hmore : more ≠ []) (hframe : IsFrame (heard (u ++ more)) payload)
      (hmarks : ∀ o ∈ u, o.inserted = inserted)

theorem Interleaved.inFront (h : Interleaved (u ++ coming)) : Front u coming := by
  generalize hall : u ++ coming = all at h
  cases h with
  | own h => exact .own (hall ▸ h)
  | @frame front rest payload inserted hframe hmarks hrest =>
    rcases List.append_eq_append_iff.mp hall with ⟨more, rfl, rfl⟩ | ⟨behind, rfl, rfl⟩
    · by_cases hmore : more = []
      · subst hmore
        rw [List.append_nil] at hframe hmarks
        exact .frame (List.append_nil u).symm hframe hmarks hrest
      · exact .part (by simp [hmore]) hmore hframe
          fun o ho => hmarks o (List.mem_append_left more ho)
    · exact .frame rfl hframe hmarks hrest

/-! ## Two readers

Both read the same stream, but for what was put between its frames. They get out of step only at
such a frame. -/

/-- The unread octets of two streams: those of `noisy` are `u`, and those of `quiet` are the same
without what has been put between them. -/
structure Strewn (noisy quiet : Stream) (u coming : List Octet) : Prop where
  heard : noisy.bytes = heard u
  meant : quiet.bytes = meant u
  ending : quiet.ending = noisy.ending
  placed : Interleaved (u ++ coming)
  /-- A stream that has ended is all there. -/
  ended : noisy.ending ≠ .ongoing → coming = []

variable {noisy quiet : Stream}

/-- What two readers find in front of their streams: a frame that only one of them has, a frame that
both have, or no frame, for the same reason. -/
inductive Finds (noisy quiet : Stream) (u coming : List Octet) : Prop where
  | inserted {rest : List Octet} {payload : List UInt8} (hmark : u.head?.any (·.inserted) = true)
      (hrest : rest <:+ u)
      (hnoisy : receive noisy = (.payload payload, ⟨Frame.heard rest, noisy.ending⟩))
      (hstrewn : Strewn ⟨Frame.heard rest, noisy.ending⟩ quiet rest coming)
  | own {rest : List Octet} {payload : List UInt8} (hmark : u.head?.any (·.inserted) = false)
      (hrest : rest <:+ u)
      (hnoisy : receive noisy = (.payload payload, ⟨Frame.heard rest, noisy.ending⟩))
      (hquiet : receive quiet = (.payload payload, ⟨Frame.meant rest, noisy.ending⟩))
      (hstrewn :
        Strewn ⟨Frame.heard rest, noisy.ending⟩ ⟨Frame.meant rest, noisy.ending⟩ rest coming)
  | nothing (hnone : ∀ payload, (receive noisy).1 ≠ .payload payload)
      (hsame : (receive quiet).1 = (receive noisy).1)

theorem any_head?_append (hfront : front ≠ []) (hmarks : ∀ o ∈ front, o.inserted = inserted) :
    (front ++ rest).head?.any (·.inserted) = inserted := by
  obtain ⟨o, front, rfl⟩ := List.exists_cons_of_ne_nil hfront
  exact hmarks o List.mem_cons_self

theorem Strewn.finds_frame (h : Strewn noisy quiet (front ++ rest) coming)
    (hframe : IsFrame (Frame.heard front) payload) (hmarks : ∀ o ∈ front, o.inserted = inserted)
    (hrest : Interleaved (rest ++ coming)) : Finds noisy quiet (front ++ rest) coming := by
  obtain ⟨bytes, ending⟩ := noisy
  obtain ⟨bytes', ending'⟩ := quiet
  obtain ⟨hheard, hmeant, hending, -, hended⟩ := h
  obtain rfl : ending' = ending := hending
  obtain rfl : bytes = Frame.heard front ++ Frame.heard rest := hheard.trans (heard_append ..)
  obtain rfl : bytes' = Frame.meant front ++ Frame.meant rest := hmeant.trans (meant_append ..)
  have hmark : (front ++ rest).head?.any (·.inserted) = inserted :=
    any_head?_append (fun h => hframe.ne_nil (h ▸ rfl)) hmarks
  have hsuffix : rest <:+ front ++ rest := List.suffix_append front rest
  rw [meant_of_marks hmarks]
  cases inserted with
  | true => exact .inserted hmark hsuffix (hframe.receive ..) ⟨rfl, rfl, rfl, hrest, hended⟩
  | false =>
    exact .own hmark hsuffix (hframe.receive ..) (hframe.receive ..) ⟨rfl, rfl, rfl, hrest, hended⟩

theorem Strewn.finds_own (h : Strewn noisy quiet u coming)
    (hown : ∀ o ∈ u ++ coming, o.inserted = false) : Finds noisy quiet u coming := by
  have hmeant : Frame.meant u = Frame.heard u :=
    meant_of_marks fun o ho => hown o (List.mem_append_left coming ho)
  have hsame : quiet = noisy := by
    obtain ⟨bytes, ending⟩ := noisy
    obtain ⟨bytes', ending'⟩ := quiet
    rw [Stream.mk.injEq]
    exact ⟨(h.meant.trans hmeant).trans h.heard.symm, h.ending⟩
  subst hsame
  cases hrec : receive quiet with
  | mk received behind =>
    cases received with
    | payload payload =>
      have hending : behind.ending = quiet.ending := ending_of_payload hrec
      obtain ⟨front, hbytes⟩ := suffix_of_payload hrec
      -- What is left of the octets is what is left of the marked octets.
      obtain ⟨marked, rest, rfl, rfl, hbehind⟩ :=
        List.map_eq_append_iff.mp (h.heard.symm.trans hbytes.symm)
      have hrest : ∀ o ∈ rest ++ coming, o.inserted = false :=
        fun o ho => hown o (by rw [List.append_assoc]; exact List.mem_append_right marked ho)
      have hstream : behind = ⟨Frame.heard rest, quiet.ending⟩ := by
        rw [← hending, Frame.heard, hbehind]
      have hmeant' : Frame.meant rest = Frame.heard rest :=
        meant_of_marks fun o ho => hrest o (List.mem_append_left coming ho)
      refine .own ?_ (List.suffix_append marked rest) (hrec.trans (by rw [hstream])) ?_
        ⟨rfl, rfl, rfl, .own hrest, h.ended⟩
      · cases hhead : (marked ++ rest).head? with
        | none => rfl
        | some o =>
          exact hown o (List.mem_append_left coming (List.mem_of_mem_head? (by rw [hhead]; rfl)))
      · rw [hmeant', hrec, hstream]
    | failure error | waiting => exact .nothing (by rw [hrec]; nofun) rfl

theorem Strewn.finds_part {more : List Octet} (h : Strewn noisy quiet u coming)
    (hcoming : coming ≠ []) (hmore : more ≠ []) (hframe : IsFrame (Frame.heard (u ++ more)) payload)
    (hmarks : ∀ o ∈ u, o.inserted = inserted) : Finds noisy quiet u coming := by
  have hongoing : noisy.ending = .ongoing := by
    by_contra hend
    exact hcoming (h.ended hend)
  have hnoisy : noisy = ⟨Frame.heard u, .ongoing⟩ := by rw [← h.heard, ← hongoing]
  have hquiet : quiet = ⟨Frame.meant u, .ongoing⟩ := by rw [← h.meant, ← hongoing, ← h.ending]
  have hwaits : (receive ⟨Frame.heard u, .ongoing⟩).1 = .waiting := by
    rw [heard_append] at hframe
    exact hframe.waiting (by simpa [Frame.heard] using hmore)
  have hwaits' : (receive ⟨Frame.meant u, .ongoing⟩).1 = .waiting := by
    rw [meant_of_marks hmarks]
    cases inserted with
    | true => rfl
    | false => exact hwaits
  rw [hnoisy, hquiet]
  exact .nothing (by rw [hwaits]; nofun) (hwaits'.trans hwaits.symm)

theorem Strewn.finds (h : Strewn noisy quiet u coming) : Finds noisy quiet u coming := by
  cases h.placed.inFront with
  | own hown => exact h.finds_own hown
  | frame heq hframe hmarks hrest =>
    subst heq
    exact h.finds_frame hframe hmarks hrest
  | part hcoming hmore hframe hmarks => exact h.finds_part hcoming hmore hframe hmarks

theorem Strewn.grow {more later : List Octet} (h : Strewn noisy quiet u (more ++ later)) :
    Strewn (noisy.grow (Frame.heard more) .ongoing) (quiet.grow (Frame.meant more) .ongoing)
      (u ++ more) later where
  heard := by rw [heard_append, ← h.heard]; rfl
  meant := by rw [meant_append, ← h.meant]; rfl
  ending := rfl
  placed := by
    rw [List.append_assoc]
    exact h.placed
  ended hend := absurd rfl hend

end LanguageClient.Frame
