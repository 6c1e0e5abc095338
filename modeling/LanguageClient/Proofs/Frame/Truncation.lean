import LanguageClient.Proofs.Frame.Grammar

/-!
# A stream that breaks off

Frames go through a sink and the stream ends somewhere among them. The cut may fall into the length's
name, into its numeral, which then is a smaller number, between a carriage return and its line feed,
or into a payload. Wherever it falls, no payload is received that was not sent, and none that was sent
whole is missing (`truncated_frames_come_back`).

A part of a frame is no frame, with one exception: a header block that lacks only its last line feed
is complete, because the end of the stream ends the blank line as well. It is then followed by nothing,
so that it must announce an empty payload, and an empty payload is what was sent.
-/

namespace LanguageClient.Frame

open Text

variable {part payload : List UInt8}

theorem read_ne_blank_of_part {n : Nat} (h : part <+: Utf8.encode (lengthLine n ++ ['\r']))
    (hsome : part ≠ []) :
    Line.read part ≠ .blank := by
  intro hread
  have hmem : 0x43 ∈ part := by
    obtain ⟨b, rest, rfl⟩ := List.exists_cons_of_ne_nil hsome
    obtain ⟨more, hmore⟩ := h
    obtain rfl : b = 0x43 := (List.cons.inj hmore).1
    exact List.mem_cons_self
  obtain ⟨text, rfl⟩ := exists_text hread (by simp)
  have hchar : 'C' ∈ text := Utf8.mem_encode_ascii (by decide) hmem
  exact absurd (read_blank_iff.mp hread 'C' hchar) (by decide)

theorem readBlock_part_of_line {n : Nat} (h : part <+: Utf8.encode (lengthLine n ++ ['\r'])) :
    ∃ e, readBlock .closed none false [] part = .bad e [] := by
  by_cases hsome : part = []
  · exact ⟨.closed, by rw [hsome]; rfl⟩
  · have hfeed : 0x0A ∉ part := fun hmem => feed_notMem_lengthLine n (h.subset hmem)
    have hline : LineBefore part [] := .inr ⟨hfeed, hsome, rfl⟩
    have hread := readBlock_lineBefore none false hline
    rw [List.append_nil] at hread
    rw [hread]
    cases hpart : Line.read part with
    | blank => exact absurd hpart (read_ne_blank_of_part h hsome)
    | header found => exact ⟨eofInHeaders, rfl⟩
    | bad e => exact ⟨e, rfl⟩

theorem prefix_append_cases {α : Type} {part front back : List α} (h : part <+: front ++ back) :
    part <+: front ∨ ∃ rest, part = front ++ rest ∧ rest <+: back := by
  rcases List.prefix_or_prefix_of_prefix h (List.prefix_append front back) with hpart | ⟨rest, rfl⟩
  · exact .inl hpart
  · exact .inr ⟨rest, rfl, (List.prefix_append_right_inj front).mp h⟩

/-- The places where a frame can be cut: in its first line, behind the line feed of that line, behind
the next octet, and in the payload. -/
theorem cut_places (h : part <+: encode payload) (hproper : part ≠ encode payload) :
    let line := Utf8.encode (lengthLine payload.length ++ ['\r'])
    part <+: line ∨ part = line ++ [0x0A] ∨ part = line ++ [0x0A, 0x0D] ∨
      ∃ begun, part = header payload.length ++ begun ∧ begun.length < payload.length := by
  intro line
  rw [encode, header_lines] at h
  rcases prefix_append_cases h with hline | ⟨rest, rfl, hrest⟩
  · exact .inl hline
  · refine (List.prefix_cons_iff.mp hrest).elim ?_ ?_
    · rintro rfl
      exact .inl (by simp [line])
    · rintro ⟨second, rfl, hsecond⟩
      refine .inr ((List.prefix_cons_iff.mp hsecond).elim ?_ ?_)
      · rintro rfl
        exact .inl rfl
      · rintro ⟨third, rfl, hthird⟩
        refine .inr ((List.prefix_cons_iff.mp hthird).imp ?_ ?_)
        · rintro rfl
          rfl
        · rintro ⟨begun, rfl, hbegun⟩
          have hwhole : line ++ 0x0A :: 0x0D :: 0x0A :: begun = header payload.length ++ begun :=
            (header_lines payload.length begun).symm
          refine ⟨begun, hwhole, hbegun.length_le.lt_of_ne fun hlength => hproper ?_⟩
          rw [hwhole, hbegun.eq_of_length hlength, encode]

/-! What comes of a part that ends behind the first line. -/

theorem receive_behind_line (hword : payload.length ≤ maxWord64) :
    receive ⟨Utf8.encode (lengthLine payload.length ++ ['\r']) ++ [0x0A], .closed⟩ =
      (.failure eofInHeaders, ⟨[], .closed⟩) := by
  have hbad : readBlock .closed (some payload.length) true [] [] = .bad eofInHeaders [] := rfl
  simp only [receive, readBlock_lengthLine .closed hword, hbad]

theorem receive_behind_return (hfit : payload.length ≤ maxPayload) :
    receive ⟨Utf8.encode (lengthLine payload.length ++ ['\r']) ++ [0x0A, 0x0D], .closed⟩ =
      if payload = [] then (.payload [], ⟨[], .closed⟩) else (.failure eofInPayload, ⟨[], .closed⟩) := by
  have hword : payload.length ≤ maxWord64 := Nat.le_trans hfit (by decide)
  have hblank : readBlock .closed (some payload.length) true [] [0x0D] =
      .complete payload.length [] := ofLength_eq_complete.mpr ⟨rfl, hfit, rfl⟩
  simp only [receive, readBlock_lengthLine .closed hword, hblank, receivePayload]
  cases payload with
  | nil => rfl
  | cons b payload => rfl

theorem receive_in_payload {begun : List UInt8} (hfit : payload.length ≤ maxPayload)
    (hshort : begun.length < payload.length) :
    receive ⟨header payload.length ++ begun, .closed⟩ = (.failure eofInPayload, ⟨[], .closed⟩) := by
  have hword : payload.length ≤ maxWord64 := Nat.le_trans hfit (by decide)
  have hcomplete : Block.ofLength (some payload.length) begun = .complete payload.length begun :=
    ofLength_eq_complete.mpr ⟨rfl, hfit, rfl⟩
  simp only [receive, readBlock_header .closed hword, hcomplete, receivePayload]
  rw [if_neg (Nat.not_le.mpr hshort)]

/-- What the reader makes of a part of a frame: nothing, unless it is all that matters of a frame
without a payload. -/
theorem receive_part (hfit : payload.length ≤ maxPayload) (h : part <+: encode payload)
    (hproper : part ≠ encode payload) :
    (∃ e, receive ⟨part, .closed⟩ = (.failure e, ⟨[], .closed⟩)) ∨
      payload = [] ∧ receive ⟨part, .closed⟩ = (.payload [], ⟨[], .closed⟩) := by
  rcases cut_places h hproper with hline | rfl | rfl | ⟨begun, rfl, hshort⟩
  · obtain ⟨e, hbad⟩ := readBlock_part_of_line hline
    exact .inl ⟨e, by simp only [receive, hbad]⟩
  · exact .inl ⟨eofInHeaders, receive_behind_line (Nat.le_trans hfit (by decide))⟩
  · rw [receive_behind_return hfit]
    by_cases hnone : payload = []
    · exact .inr ⟨hnone, if_pos hnone⟩
    · exact .inl ⟨eofInPayload, if_neg hnone⟩
  · exact .inl ⟨eofInPayload, receive_in_payload hfit hshort⟩

/-! ## The whole stream -/

theorem receive_cut_frames {payloads : List (List UInt8)} {bytes : List UInt8}
    (hfit : ∀ p ∈ payloads, p.length ≤ maxPayload) (h : bytes <+: payloads.flatMap encode) :
    ∃ (taken : List (List UInt8)) (e : FramingError),
      receiveTimes (taken.length + 1) ⟨bytes, .closed⟩ = taken.map .payload ++ [.failure e] ∧
      taken <+: payloads ∧
      ∀ whole, whole <+: payloads → whole.flatMap encode <+: bytes → whole <+: taken := by
  induction payloads generalizing bytes with
  | nil =>
    obtain rfl := List.prefix_nil.mp h
    exact ⟨[], .closed, rfl, List.prefix_rfl, fun whole hwhole _ => hwhole⟩
  | cons p payloads ih =>
    obtain ⟨hp, hrest⟩ := List.forall_mem_cons.mp hfit
    rw [List.flatMap_cons] at h
    by_cases hfirst : encode p <+: bytes
    · -- The first frame is whole.
      obtain ⟨rest, rfl⟩ := hfirst
      obtain ⟨taken, e, htimes, htaken, hall⟩ := ih hrest ((List.prefix_append_right_inj _).mp h)
      refine ⟨p :: taken, e, ?_, (List.prefix_cons_inj p).mpr htaken, ?_⟩
      · rw [List.length_cons, receiveTimes, receive_encode hp, List.map_cons, List.cons_append]
        exact congrArg _ htimes
      · rintro (_ | ⟨q, whole⟩) hwhole hinside
        · exact List.nil_prefix
        · obtain ⟨rfl, hmore⟩ := List.cons_prefix_cons.mp hwhole
          rw [List.flatMap_cons, List.prefix_append_right_inj] at hinside
          exact (List.prefix_cons_inj q).mpr (hall whole hmore hinside)
    · -- The stream ends in the first frame, so that no frame is whole.
      have hpart : bytes <+: encode p :=
        (List.prefix_or_prefix_of_prefix h (List.prefix_append _ _)).resolve_right hfirst
      have hnone : ∀ whole, whole <+: p :: payloads → whole.flatMap encode <+: bytes → whole = [] := by
        rintro (_ | ⟨q, whole⟩) hwhole hinside
        · rfl
        · obtain ⟨rfl, -⟩ := List.cons_prefix_cons.mp hwhole
          exact absurd ((List.prefix_append _ _).trans hinside) hfirst
      have hproper : bytes ≠ encode p := fun heq => hfirst (heq ▸ List.prefix_rfl)
      rcases receive_part hp hpart hproper with ⟨e, hfailure⟩ | ⟨rfl, hempty⟩
      · refine ⟨[], e, ?_, List.nil_prefix, fun whole hwhole hinside => ?_⟩
        · rw [List.length_nil, receiveTimes, hfailure]
          rfl
        · obtain rfl := hnone whole hwhole hinside
          exact List.nil_prefix
      · refine ⟨[[]], .closed, ?_, ?_, fun whole hwhole hinside => ?_⟩
        · rw [List.length_singleton, receiveTimes, hempty]
          rfl
        · simp
        · obtain rfl := hnone whole hwhole hinside
          exact List.nil_prefix

/-- Frames are written to an open sink and the stream ends anywhere among them. The payloads that are
received before the first failure are the first of those that were sent, and all whose frames are
whole are among them. -/
theorem truncated_frames_come_back (sink : Sink) (hopen : sink.Open) (hnew : sink.written = [])
    (payloads : List (List UInt8)) (hfit : ∀ p ∈ payloads, p.length ≤ maxPayload)
    (bytes : List UInt8) (hcut : bytes <+: (sink.sendAll payloads).2.written) :
    ∃ (taken : List (List UInt8)) (e : FramingError),
      receiveTimes (taken.length + 1) ⟨bytes, .closed⟩ = taken.map .payload ++ [.failure e] ∧
      taken <+: payloads ∧
      ∀ whole, whole <+: payloads → whole.flatMap encode <+: bytes → whole <+: taken := by
  obtain ⟨-, hwritten⟩ := Sink.sendAll_of_open hopen payloads
  rw [hwritten, hnew, List.nil_append] at hcut
  exact receive_cut_frames hfit hcut

/-- A payload of twelve octets that is cut where its length reads one, behind an empty payload. -/
theorem truncated_frames_come_back_numeral :
    let sink : Sink := { step := some 5 }
    let payloads : List (List UInt8) := [[], List.replicate 12 0x20]
    let bytes := (sink.sendAll payloads).2.written.take 38
    bytes.drop 21 = Utf8.encode "Content-Length: 1".toList ∧
    ∃ (taken : List (List UInt8)) (e : FramingError),
      receiveTimes (taken.length + 1) ⟨bytes, .closed⟩ = taken.map .payload ++ [.failure e] ∧
      taken <+: payloads ∧
      ∀ whole, whole <+: payloads → whole.flatMap encode <+: bytes → whole <+: taken := by
  intro sink payloads bytes
  refine ⟨by decide, ?_⟩
  exact truncated_frames_come_back sink ⟨rfl, by decide⟩ rfl payloads (by decide) bytes
    (List.take_prefix ..)

end LanguageClient.Frame
