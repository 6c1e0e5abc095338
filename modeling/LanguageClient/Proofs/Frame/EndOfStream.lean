import LanguageClient.Proofs.Frame.Truncation

/-!
# How the end of a stream is reported

A stream that ends between two frames is closed, and one that ends inside a frame has ended too early.
The reader tells the two apart, but it judges the last line of a header block before it notices that the
line has no end. So there are two places inside a frame at which it reports something else. A line that
is cut before the first digit of the length is reported as an ill-formed header. A header block that
lacks only its last line feed passes for a whole one, and if it announces an empty payload then the
frame passes for a whole one too. Nor does it wait for the payload of a header block that announces too
much: that is reported wherever the stream ends behind the block.

`end_of_stream_reports` says what is reported at every place. The argument is about one cut frame
(`CutFrame`); the whole frames in front of it are received and change nothing
(`FirstFailure.behind_frames`).
-/

namespace LanguageClient.Frame

open Text

/-! ## The first failure -/

/-- Receiving from a stream that has ended gives payloads, and then this failure. -/
def FirstFailure (bytes : List UInt8) (e : FramingError) : Prop :=
  ∃ taken : List (List UInt8),
    receiveTimes (taken.length + 1) ⟨bytes, .closed⟩ = taken.map .payload ++ [.failure e]

variable {bytes part payload : List UInt8} {e e' : FramingError}

theorem firstFailure_of_receive {rest : Stream}
    (h : receive ⟨bytes, .closed⟩ = (.failure e, rest)) : FirstFailure bytes e := by
  refine ⟨[], ?_⟩
  rw [List.length_nil, receiveTimes, h]
  rfl

theorem FirstFailure.behind_payload {rest : List UInt8} (hrest : FirstFailure rest e)
    (h : receive ⟨bytes, .closed⟩ = (.payload payload, ⟨rest, .closed⟩)) : FirstFailure bytes e := by
  obtain ⟨taken, htaken⟩ := hrest
  refine ⟨payload :: taken, ?_⟩
  rw [List.length_cons, receiveTimes, h, List.map_cons, List.cons_append]
  exact congrArg _ htaken

theorem FirstFailure.behind_frames {whole : List (List UInt8)} (h : FirstFailure part e)
    (hfit : ∀ p ∈ whole, p.length ≤ maxPayload) : FirstFailure (whole.flatMap encode ++ part) e := by
  induction whole with
  | nil => exact h
  | cons p whole ih =>
    obtain ⟨hp, hwhole⟩ := List.forall_mem_cons.mp hfit
    rw [List.flatMap_cons, List.append_assoc]
    exact (ih hwhole).behind_payload (receive_encode hp _ _)

/-- Payloads are no failures, so that the first failure is the same however often one receives. -/
theorem receiveTimes_failure_inj {s : Stream} {taken taken' : List (List UInt8)}
    (h : receiveTimes (taken.length + 1) s = taken.map Received.payload ++ [.failure e])
    (h' : receiveTimes (taken'.length + 1) s = taken'.map Received.payload ++ [.failure e']) :
    e = e' := by
  induction taken generalizing s taken' with
  | nil =>
    have hfirst := (List.cons.inj h).1
    cases taken' with
    | nil => exact Received.failure.inj (hfirst.symm.trans (List.cons.inj h').1)
    | cons p taken' => exact absurd (hfirst.symm.trans (List.cons.inj h').1) (by simp)
  | cons p taken ih =>
    obtain ⟨hfirst, hrest⟩ := List.cons.inj h
    cases taken' with
    | nil => exact absurd (hfirst.symm.trans (List.cons.inj h').1) (by simp)
    | cons p' taken' => exact ih hrest (List.cons.inj h').2

theorem FirstFailure.unique (h : FirstFailure bytes e) (h' : FirstFailure bytes e') : e = e' := by
  obtain ⟨taken, htaken⟩ := h
  obtain ⟨taken', htaken'⟩ := h'
  exact receiveTimes_failure_inj htaken htaken'

/-! ## A line that is cut

Cut before the first digit of the length, a line is no header. Cut behind it, it is one with a
shorter number. -/

/-- What every header block of the writer begins with: all that stands before the first digit. -/
def leader : List Char := lengthName ++ [':', ' ']

theorem encode_ascii {text : List Char} (h : ∀ c ∈ text, c.toNat < 0x80) :
    Utf8.encode text = text.map fun c => UInt8.ofNat c.toNat := by
  induction text with
  | nil => rfl
  | cons c text ih =>
    obtain ⟨hc, htext⟩ := List.forall_mem_cons.mp h
    rw [Utf8.encode, List.flatMap_cons, Utf8.encodeChar, if_pos hc, List.map_cons, ← ih htext]
    rfl

theorem ascii_lengthLine (n : Nat) : ∀ c ∈ lengthLine n ++ ['\r'], c.toNat < 0x80 := by
  intro c hc
  rcases List.mem_append.mp hc with hc | hc
  · rcases mem_lengthLine hc with hname | hdigit
    · exact of_decide_eq_true (List.all_eq_true.mp
        (show (lengthName ++ [':', ' ']).all (fun c => decide (c.toNat < 0x80)) = true by decide) c hname)
    · have hrange := toNat_of_isDigit hdigit
      omega
  · rw [List.mem_singleton.mp hc]
    decide

theorem exists_part_text {n : Nat} (h : part <+: Utf8.encode (lengthLine n ++ ['\r'])) :
    ∃ text, text <+: lengthLine n ++ ['\r'] ∧ part = Utf8.encode text ∧ part.length = text.length := by
  have hascii := ascii_lengthLine n
  rw [encode_ascii hascii] at h
  obtain ⟨text, htext, rfl⟩ := List.prefix_map_iff.mp h
  refine ⟨text, htext, ?_, List.length_map _⟩
  rw [encode_ascii fun c hc => hascii c (htext.subset hc)]

/-- Before the first digit of the length there is no header yet. -/
theorem read_part_of_leader {text : List Char} (h : text <+: leader) (hsome : text ≠ []) :
    Line.read (Utf8.encode text) = .bad (.invalidHeader (String.ofList (trim text))) := by
  have hall : ∀ k : Fin 16, Line.read (Utf8.encode (leader.take (k + 1))) =
      .bad (.invalidHeader (String.ofList (trim (leader.take (k + 1))))) := by decide +kernel
  have hpos := List.length_pos_of_ne_nil hsome
  have hle : text.length ≤ 16 := h.length_le
  have hlength : text.length - 1 + 1 = text.length := by omega
  have hread := hall ⟨text.length - 1, by omega⟩
  rwa [hlength, ← List.prefix_iff_eq_take.mp h] at hread

theorem ofDigitChars_le_append (front back : List Char) :
    Nat.ofDigitChars 10 front 0 ≤ Nat.ofDigitChars 10 (front ++ back) 0 := by
  have hpos : 0 < 10 ^ back.length := Nat.pow_pos (by decide)
  rw [Nat.ofDigitChars_append, Nat.ofDigitChars_eq_ofDigitChars_zero (l := back)]
  exact Nat.le_add_right_of_le (Nat.le_mul_of_pos_left _ hpos)

/-- From its first digit on, the line is a header that names a length, though perhaps not the one that
was to be written. -/
theorem read_part_of_numeral {n : Nat} (hword : n ≤ maxWord64) {digits ending : List Char}
    (hdigits : digits <+: numeral n) (hsome : digits ≠ []) (hending : ending <+: ['\r']) :
    ∃ m, Line.read (Utf8.encode (leader ++ (digits ++ ending))) = .header (some m) := by
  have hdigit : ∀ c ∈ digits, c.isDigit = true := fun c hc => isDigit_of_mem_numeral (hdigits.subset hc)
  have hblank : ∀ c ∈ ending, isBlank c = true := by
    intro c hc
    rw [List.mem_singleton.mp (hending.subset hc)]
    decide
  have htrim : trim (' ' :: (digits ++ ending)) = digits := by
    rw [trim_cons (by decide)]
    refine trim_append (fun c hc => ?_) (fun c hc => ?_) hblank
    · exact isBlank_of_isDigit (hdigit c (List.mem_of_mem_head? hc))
    · exact isBlank_of_isDigit (hdigit c (List.mem_of_mem_getLast? hc))
  have hlimit : Nat.ofDigitChars 10 digits 0 ≤ maxWord64 := by
    obtain ⟨back, hback⟩ := hdigits
    have hle := ofDigitChars_le_append digits back
    rw [hback, numeral, Nat.ofDigitChars_ten_toDigits] at hle
    exact Nat.le_trans hle hword
  have hsplit : leader ++ (digits ++ ending) = lengthName ++ ':' :: ' ' :: (digits ++ ending) := by
    simp [leader]
  refine ⟨Nat.ofDigitChars 10 digits 0, ?_⟩
  rw [hsplit, read_split (by decide)]
  refine ⟨by decide, ?_, hlimit⟩
  rw [htrim]
  exact ⟨digits, .inl rfl, hsome, hdigit, rfl⟩

theorem receive_only_line {line : List UInt8} (hfeed : 0x0A ∉ line) (hsome : line ≠ []) :
    (∀ e, Line.read line = .bad e → receive ⟨line, .closed⟩ = (.failure e, ⟨[], .closed⟩)) ∧
    ∀ length, Line.read line = .header length →
      receive ⟨line, .closed⟩ = (.failure eofInHeaders, ⟨[], .closed⟩) := by
  have hread := readBlock_end none false [] hfeed hsome
  rw [List.reverse_nil, List.nil_append] at hread
  refine ⟨fun e hbad => ?_, fun length hheader => ?_⟩
  · simp only [receive, hread, hbad, afterLine]
  · have hrest : readBlock .closed (length.or none) true [] [] = .bad eofInHeaders [] := rfl
    simp only [receive, hread, hheader, afterLine, hrest]

/-! ## A frame that is cut -/

/-- The first octets of a frame: at least one, and not all. -/
structure CutFrame where
  payload : List UInt8
  part : List UInt8
  begun : part ≠ []
  inside : part <+: encode payload
  unfinished : part ≠ encode payload

namespace CutFrame

variable (c : CutFrame)

/-- The stream ends before the first digit of the length. -/
def Nameless : Prop := c.part.length ≤ leader.length

/-- Nothing is to come but the line feed that ends the header block. -/
def LacksFeed : Prop := c.payload = [] ∧ c.part.length + 1 = (encode c.payload).length

/-- The header block announces more than the reader takes, and all of it is there but perhaps its last
line feed. -/
def Oversized : Prop :=
  maxPayload < c.payload.length ∧ (header c.payload.length).length ≤ c.part.length + 1

instance : Decidable c.Nameless := inferInstanceAs (Decidable (_ ≤ _))

instance : Decidable c.LacksFeed := inferInstanceAs (Decidable (_ ∧ _))

instance : Decidable c.Oversized := inferInstanceAs (Decidable (_ ∧ _))

theorem leader_lt_line (n : Nat) : leader.length < (Utf8.encode (lengthLine n ++ ['\r'])).length := by
  rw [encode_ascii (ascii_lengthLine n), List.length_map, lengthLine, List.length_append,
    List.length_append, List.length_singleton, leader]
  omega

theorem length_header (n : Nat) :
    (header n).length = (Utf8.encode (lengthLine n ++ ['\r'])).length + 3 := by
  have hlines := congrArg List.length (header_lines n [])
  simp only [List.length_append, List.length_cons, List.length_nil] at hlines
  omega

variable {c}

theorem receive_of_nameless (h : c.Nameless) :
    receive ⟨c.part, .closed⟩ =
      (.failure (.invalidHeader (String.ofList (trim (leader.take c.part.length)))), ⟨[], .closed⟩) := by
  have hlong := leader_lt_line c.payload.length
  have hshort : c.part.length ≤ leader.length := h
  have hline : c.part <+: Utf8.encode (lengthLine c.payload.length ++ ['\r']) := by
    refine List.prefix_of_prefix_length_le c.inside ?_ (by omega)
    rw [encode, header_lines]
    exact List.prefix_append _ _
  obtain ⟨text, htext, hpart, hlength⟩ := exists_part_text hline
  have hleader : text <+: leader := by
    refine List.prefix_of_prefix_length_le htext ?_ (by omega)
    rw [lengthLine, List.append_assoc]
    exact List.prefix_append _ _
  have hsome : text ≠ [] := by
    rintro rfl
    exact c.begun hpart
  have hfeed : 0x0A ∉ c.part := fun hmem => feed_notMem_lengthLine _ (hline.subset hmem)
  refine (receive_only_line hfeed c.begun).1 _ ?_
  rw [hlength, ← List.prefix_iff_eq_take.mp hleader, hpart]
  exact read_part_of_leader hleader hsome

theorem receive_in_line (hword : c.payload.length ≤ maxWord64) (h : ¬ c.Nameless)
    (hline : c.part <+: Utf8.encode (lengthLine c.payload.length ++ ['\r'])) :
    receive ⟨c.part, .closed⟩ = (.failure eofInHeaders, ⟨[], .closed⟩) := by
  have hlong : leader.length < c.part.length := Nat.lt_of_not_le h
  obtain ⟨text, htext, hpart, hlength⟩ := exists_part_text hline
  have hfeed : 0x0A ∉ c.part := fun hmem => feed_notMem_lengthLine _ (hline.subset hmem)
  -- Behind the leader there are digits, and perhaps the carriage return behind all of them.
  have hbehind : ∃ digits ending, text = leader ++ (digits ++ ending) ∧ digits ≠ [] ∧
      digits <+: numeral c.payload.length ∧ ending <+: ['\r'] := by
    rw [lengthLine, List.append_assoc] at htext
    rcases prefix_append_cases htext with hleader | ⟨rest, rfl, hrest⟩
    · have hle : text.length ≤ leader.length := hleader.length_le
      omega
    · have hsome : rest ≠ [] := by
        rintro rfl
        rw [hlength, List.append_nil] at hlong
        exact Nat.lt_irrefl _ hlong
      rcases prefix_append_cases hrest with hdigits | ⟨ending, rfl, hending⟩
      · exact ⟨rest, [], by rw [List.append_nil]; rfl, hsome, hdigits, List.nil_prefix⟩
      · exact ⟨numeral c.payload.length, ending, rfl, Nat.toDigits_ne_nil, List.prefix_rfl, hending⟩
  obtain ⟨digits, ending, rfl, hsome, hdigits, hending⟩ := hbehind
  obtain ⟨m, hread⟩ := read_part_of_numeral hword hdigits hsome hending
  exact (receive_only_line hfeed c.begun).2 (some m) (hpart ▸ hread)

theorem receive_of_lacksFeed (h : c.LacksFeed) :
    receive ⟨c.part, .closed⟩ = (.payload [], ⟨[], .closed⟩) := by
  obtain ⟨payload, part, begun, inside, unfinished⟩ := c
  obtain ⟨hnone, hlength⟩ := h
  dsimp only at hnone hlength ⊢
  subst hnone
  have hlines : encode [] = Utf8.encode (lengthLine 0 ++ ['\r']) ++ [0x0A, 0x0D] ++ [0x0A] := by
    rw [encode, List.append_nil, ← List.append_nil (header _), header_lines]
    simp
  have hpart : part = Utf8.encode (lengthLine 0 ++ ['\r']) ++ [0x0A, 0x0D] := by
    rw [hlines] at inside hlength
    rw [List.length_append, List.length_singleton, Nat.add_right_cancel_iff] at hlength
    have hfront := List.prefix_of_prefix_length_le inside (List.prefix_append _ _) hlength.le
    exact hfront.eq_of_length hlength
  rw [hpart]
  have hfit : ([] : List UInt8).length ≤ maxPayload := Nat.zero_le _
  exact (receive_behind_return hfit).trans (if_pos rfl)

theorem receive_of_oversized (hword : c.payload.length ≤ maxWord64) (h : c.Oversized) :
    ∃ rest, receive ⟨c.part, .closed⟩ =
      (.failure (.frameTooLarge c.payload.length maxPayload), rest) := by
  obtain ⟨hlarge, hblock⟩ := h
  rw [length_header] at hblock
  rcases cut_places c.inside c.unfinished with hline | hpart | hpart | ⟨begun, hpart, -⟩
  · have hle := hline.length_le
    omega
  · rw [hpart, List.length_append, List.length_singleton] at hblock
    omega
  · have hrefused : readBlock .closed (some c.payload.length) true [] [0x0D] =
        .bad (.frameTooLarge c.payload.length maxPayload) [] := by
      change Block.ofLength (some c.payload.length) [] = _
      rw [Block.ofLength, blockLength, if_pos hlarge]
    refine ⟨⟨[], .closed⟩, ?_⟩
    simp only [receive, hpart, readBlock_lengthLine .closed hword, hrefused]
  · exact ⟨_, hpart ▸ receive_of_tooLarge hlarge hword begun .closed⟩

theorem receive_elsewhere (hword : c.payload.length ≤ maxWord64) (hnamed : ¬ c.Nameless)
    (hfeed : ¬ c.LacksFeed) (hsize : ¬ c.Oversized) :
    ∃ cause : IoError, cause.kind = .unexpectedEof ∧
      receive ⟨c.part, .closed⟩ = (.failure (.io cause), ⟨[], .closed⟩) := by
  have hfit : (header c.payload.length).length ≤ c.part.length + 1 →
      c.payload.length ≤ maxPayload := fun hblock =>
    Nat.le_of_not_lt fun hlarge => hsize ⟨hlarge, hblock⟩
  rw [length_header] at hfit
  rcases cut_places c.inside c.unfinished with hline | hpart | hpart | ⟨begun, hpart, hshort⟩
  · exact ⟨_, rfl, receive_in_line hword hnamed hline⟩
  · exact ⟨_, rfl, hpart ▸ receive_behind_line hword⟩
  · have hlength := congrArg List.length hpart
    rw [List.length_append] at hlength
    have hsome : c.payload ≠ [] := by
      intro hnone
      refine hfeed ⟨hnone, ?_⟩
      rw [encode, List.length_append, length_header, hlength, hnone]
      rfl
    have hfits := hfit (hlength ▸ Nat.le_refl _)
    exact ⟨_, rfl, hpart ▸ (receive_behind_return hfits).trans (if_neg hsome)⟩
  · have hlength := congrArg List.length hpart
    rw [List.length_append, length_header] at hlength
    exact ⟨_, rfl, hpart ▸ receive_in_payload (hfit (by omega)) hshort⟩

end CutFrame

/-! ## The whole stream -/

theorem firstFailure_nil : FirstFailure [] .closed := firstFailure_of_receive rfl

/-- Wherever a stream of frames ends, it ends behind a frame or inside one. -/
theorem boundary_or_cut {payloads : List (List UInt8)} (h : bytes <+: payloads.flatMap encode) :
    (∃ whole, whole <+: payloads ∧ bytes = whole.flatMap encode) ∨
      ∃ (whole : List (List UInt8)) (c : CutFrame), whole ++ [c.payload] <+: payloads ∧
        bytes = whole.flatMap encode ++ c.part := by
  induction payloads generalizing bytes with
  | nil => exact .inl ⟨[], List.nil_prefix, List.prefix_nil.mp h⟩
  | cons p payloads ih =>
    rw [List.flatMap_cons] at h
    rcases prefix_append_cases h with hpart | ⟨rest, rfl, hrest⟩
    · by_cases hnone : bytes = []
      · exact .inl ⟨[], List.nil_prefix, hnone⟩
      · by_cases hwhole : bytes = encode p
        · exact .inl ⟨[p], by simp, by simp [hwhole]⟩
        · exact .inr ⟨[], ⟨p, bytes, hnone, hpart, hwhole⟩, by simp, rfl⟩
    · rcases ih hrest with ⟨whole, hwhole, rfl⟩ | ⟨whole, c, hwhole, rfl⟩
      · exact .inl ⟨p :: whole, (List.prefix_cons_inj p).mpr hwhole, rfl⟩
      · exact .inr ⟨p :: whole, c, (List.prefix_cons_inj p).mpr hwhole, by simp⟩

/-- Frames are written to an open sink and the stream ends anywhere among them: behind a frame, or
inside one. Behind a frame it is reported as closed. Inside a frame it is reported as having ended too
early, except before the first digit of a length, where what there is of the line is reported as an
ill-formed header, and right before the end of a frame without a payload, where it is reported as
closed. All that is said of a stream whose frames are none too large. If one is, then from the end of
its header block on that is what is reported. -/
theorem end_of_stream_reports (sink : Sink) (hopen : sink.Open) (hnew : sink.written = [])
    (payloads : List (List UInt8)) (hword : ∀ p ∈ payloads, p.length ≤ maxWord64)
    (bytes : List UInt8) (hcut : bytes <+: (sink.sendAll payloads).2.written) :
    ((∃ whole, whole <+: payloads ∧ bytes = whole.flatMap encode) ∨
      ∃ (whole : List (List UInt8)) (c : CutFrame), whole ++ [c.payload] <+: payloads ∧
        bytes = whole.flatMap encode ++ c.part) ∧
    (∀ whole, whole <+: payloads → bytes = whole.flatMap encode →
      (∀ p ∈ whole, p.length ≤ maxPayload) → FirstFailure bytes .closed) ∧
    (∀ (whole : List (List UInt8)) (c : CutFrame), whole ++ [c.payload] <+: payloads →
      bytes = whole.flatMap encode ++ c.part → (∀ p ∈ whole, p.length ≤ maxPayload) →
      (¬ c.Nameless → ¬ c.LacksFeed → ¬ c.Oversized →
        ∃ cause : IoError, cause.kind = .unexpectedEof ∧ FirstFailure bytes (.io cause)) ∧
      (c.Nameless →
        FirstFailure bytes (.invalidHeader (String.ofList (trim (leader.take c.part.length))))) ∧
      (c.LacksFeed → FirstFailure bytes .closed) ∧
      (c.Oversized → FirstFailure bytes (.frameTooLarge c.payload.length maxPayload))) ∧
    ∀ (whole : List (List UInt8)) (p rest : List UInt8), whole ++ [p] <+: payloads →
      bytes = whole.flatMap encode ++ (encode p ++ rest) → (∀ q ∈ whole, q.length ≤ maxPayload) →
      maxPayload < p.length → FirstFailure bytes (.frameTooLarge p.length maxPayload) := by
  obtain ⟨-, hwritten⟩ := Sink.sendAll_of_open hopen payloads
  rw [hwritten, hnew, List.nil_append] at hcut
  have hlast : ∀ {whole : List (List UInt8)} {p : List UInt8}, whole ++ [p] <+: payloads →
      p.length ≤ maxWord64 := fun hwhole =>
    hword _ (hwhole.subset (List.mem_append_right _ (List.mem_singleton_self _)))
  refine ⟨boundary_or_cut hcut, ?_, ?_, ?_⟩
  · rintro whole hwhole rfl hfit
    have hclosed := firstFailure_nil.behind_frames hfit
    rwa [List.append_nil] at hclosed
  · rintro whole c hwhole rfl hfit
    refine ⟨fun hnamed hfeed hsize => ?_, fun hnameless => ?_, fun hfeed => ?_, fun hlarge => ?_⟩
    · obtain ⟨cause, hkind, hreceive⟩ := c.receive_elsewhere (hlast hwhole) hnamed hfeed hsize
      exact ⟨cause, hkind, (firstFailure_of_receive hreceive).behind_frames hfit⟩
    · exact (firstFailure_of_receive (c.receive_of_nameless hnameless)).behind_frames hfit
    · exact (firstFailure_nil.behind_payload (c.receive_of_lacksFeed hfeed)).behind_frames hfit
    · obtain ⟨rest, hreceive⟩ := c.receive_of_oversized (hlast hwhole) hlarge
      exact (firstFailure_of_receive hreceive).behind_frames hfit
  · rintro whole p rest hwhole rfl hfit hlarge
    rw [encode, List.append_assoc]
    exact (firstFailure_of_receive
      (receive_of_tooLarge hlarge (hlast hwhole) (p ++ rest) .closed)).behind_frames hfit

/-- Behind an empty payload, a payload of twelve octets is cut where its length reads one. -/
theorem end_of_stream_reports_numeral :
    let sink : Sink := { step := some 5 }
    let payloads : List (List UInt8) := [[], List.replicate 12 0x20]
    let bytes := (sink.sendAll payloads).2.written.take 38
    bytes.drop 21 = Utf8.encode "Content-Length: 1".toList ∧
    ∃ cause : IoError, cause.kind = .unexpectedEof ∧ FirstFailure bytes (.io cause) := by
  intro sink payloads bytes
  let c : CutFrame := ⟨List.replicate 12 0x20, bytes.drop 21, by decide, by decide, by decide⟩
  have hall := end_of_stream_reports sink ⟨rfl, by decide⟩ rfl payloads (by decide) bytes
    (List.take_prefix ..)
  refine ⟨by decide, ?_⟩
  exact (hall.2.2.1 [[]] c (by decide) (by decide) (by decide)).1 (by decide) (by decide) (by decide)

/-- The stream ends inside the name of the length, and this is not reported as an early end. -/
theorem end_of_stream_unreported_in_name :
    let sink : Sink := {}
    let bytes := (sink.sendAll [[]]).2.written.take 10
    FirstFailure bytes (.invalidHeader "Content-Le") ∧
    ¬ ∃ cause : IoError, cause.kind = .unexpectedEof ∧ FirstFailure bytes (.io cause) := by
  intro sink bytes
  have hfailure : FirstFailure bytes (.invalidHeader "Content-Le") := ⟨[], by decide +kernel⟩
  refine ⟨hfailure, ?_⟩
  rintro ⟨cause, -, hio⟩
  cases hfailure.unique hio

end LanguageClient.Frame
