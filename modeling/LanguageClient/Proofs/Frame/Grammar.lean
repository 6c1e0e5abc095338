import LanguageClient.Proofs.Frame.RoundTrip
import LanguageClient.Proofs.Text.Readings

/-!
# What the reader takes for a frame

The reader takes more than the writer writes: any headers in any order, names in any case, numerals
with zeros in front, blank lines of any blanks. This file says exactly what. A `Header` is a line that
the reader passes over or takes the length from, a `BlankLine` is one that ends the block, and
`receive_follows_grammar` says that a payload is received if and only if it stands behind headers and
a blank line and is as long as the last length that the headers name.

The reader's loop is unrolled once, in `readBlock_headers`: headers in front of anything leave nothing
behind but the last length that they name. That is also why nothing else about them matters.
-/

namespace LanguageClient.Frame

open Text

/-! ## Header lines -/

/-- What a header says about the length of the payload: the length header names it in decimal, and
every other header says nothing. -/
def Announces (name value : List Char) : Option Nat → Prop
  | some n => lower (trim name) = lower lengthName ∧ IsNumeral (trim value) n ∧ n ≤ maxWord64
  | none => lower (trim name) ≠ lower lengthName

instance (name value : List Char) (length : Option Nat) : Decidable (Announces name value length) :=
  match length with
  | some _ => inferInstanceAs (Decidable (_ ∧ _ ∧ _))
  | none => inferInstanceAs (Decidable (_ ≠ _))

/-- A header line: the text before its first colon, the text behind it up to the line feed, and what
this says about the length. -/
structure Header where
  name : List Char
  value : List Char
  length : Option Nat
  colon : ':' ∉ name
  feed : '\n' ∉ name ++ ':' :: value
  announces : Announces name value length

namespace Header

def octets (h : Header) : List UInt8 := Utf8.encode (h.name ++ ':' :: h.value) ++ [0x0A]

def recase (h : Header) (name : List Char) (same : lower name = lower h.name) : Header where
  name := name
  value := h.value
  length := h.length
  colon := by
    rw [← mem_lower_iff (by decide), same, mem_lower_iff (by decide)]
    exact h.colon
  feed := by
    have hfeed := h.feed
    have hlower : '\n' ∈ name ↔ '\n' ∈ h.name := by
      rw [← mem_lower_iff (by decide), same, mem_lower_iff (by decide)]
    rwa [List.mem_append, hlower, ← List.mem_append]
  announces := by
    have hname : lower (trim name) = lower (trim h.name) := by rw [lower_trim, lower_trim, same]
    have hlength := h.announces
    unfold Announces at hlength ⊢
    rwa [hname]

end Header

/-- The last length that headers name, or the one that was named before. -/
def lastLength (before : Option Nat) (headers : List Header) : Option Nat :=
  (headers.filterMap Header.length).getLast?.or before

theorem lastLength_cons (before : Option Nat) (h : Header) (headers : List Header) :
    lastLength before (h :: headers) = lastLength (h.length.or before) headers := by
  unfold lastLength
  cases hlength : h.length with
  | none => simp [hlength]
  | some n =>
    simp only [List.filterMap_cons, hlength, List.getLast?_cons, Option.some_or]
    cases (headers.filterMap Header.length).getLast? <;> rfl

/-- A line that ends a header block: blanks, and a line feed unless the stream ends. -/
structure BlankLine where
  blanks : List Char
  ended : Bool
  blank : ∀ c ∈ blanks, isBlank c = true
  feed : '\n' ∉ blanks
  nonempty : ended = true ∨ blanks ≠ []

def BlankLine.octets (b : BlankLine) : List UInt8 :=
  Utf8.encode b.blanks ++ if b.ended then [0x0A] else []

/-! ## Reading one line -/

variable {text name value : List Char} {length : Option Nat} {line bytes rest s : List UInt8}
  {n : Nat}

theorem feed_mem_encode_iff : 0x0A ∈ Utf8.encode text ↔ '\n' ∈ text := by
  constructor
  · intro h
    exact Utf8.mem_encode_ascii (by decide) h
  · intro h
    exact List.mem_flatMap.mpr ⟨'\n', h, by decide⟩

theorem encode_eq_nil_iff : Utf8.encode text = [] ↔ text = [] := by
  constructor
  · intro h
    exact Utf8.encode_inj h
  · rintro rfl
    rfl

theorem lineLength_split (hcolon : ':' ∉ name) :
    lineLength (name ++ ':' :: value) = .ok length ↔ Announces name value length := by
  have hname : ∀ c ∈ name, (c != ':') = true := by
    intro c hc
    rw [bne_iff_ne]
    rintro rfl
    exact hcolon hc
  have hbefore : (name ++ ':' :: value).takeWhile (· != ':') = name := by
    simp [List.takeWhile_append_of_pos hname]
  have hbehind : (name ++ ':' :: value).dropWhile (· != ':') = ':' :: value := by
    simp [List.dropWhile_append_of_pos hname]
  rw [lineLength, hbehind, hbefore]
  simp only [sameIgnoringCase, beq_iff_eq]
  split
  · next hsame =>
    split
    · next n hread =>
      obtain ⟨hnumeral, hlimit⟩ := readNumeral_eq_some_iff.mp hread
      cases length with
      | none => simp [Announces, hsame]
      | some m =>
        simp only [Announces, hsame, true_and, Except.ok.injEq, Option.some.injEq]
        rw [← readNumeral_eq_some_iff, hread, Option.some.injEq]
    · next hread =>
      cases length with
      | none => simp [Announces, hsame]
      | some m => simp [Announces, hsame, ← readNumeral_eq_some_iff, hread]
  · next hother =>
    cases length with
    | none => simp [Announces, hother]
    | some m => simp [Announces, hother]

theorem announces_trim :
    Announces (trimFront name) (trimBack value) length ↔ Announces name value length := by
  cases length <;> simp [Announces]

theorem announces_concat :
    Announces name value length ↔ Announces name (value ++ ['\n']) length := by
  have htrim : trim (value ++ ['\n']) = trim value := trim_concat (by decide) value
  cases length <;> simp [Announces, htrim]

theorem read_blank_iff :
    Line.read (Utf8.encode text) = .blank ↔ ∀ c ∈ text, isBlank c = true := by
  rw [← trim_eq_nil_iff, Line.read, Utf8.decode_encode]
  dsimp only
  cases trim text with
  | nil => simp
  | cons c line =>
    dsimp only
    split <;> simp

theorem read_header_iff :
    Line.read (Utf8.encode text) = .header length ↔ lineLength (trim text) = .ok length := by
  rw [Line.read, Utf8.decode_encode]
  dsimp only
  cases trim text with
  | nil => simp [lineLength]
  | cons c line =>
    dsimp only
    cases lineLength (c :: line) <;> simp

theorem isBlank_colon : isBlank ':' = false := by decide

theorem read_split (hcolon : ':' ∉ name) :
    Line.read (Utf8.encode (name ++ ':' :: value)) = .header length ↔ Announces name value length := by
  have hfront : ':' ∉ trimFront name := fun hmem => hcolon ((List.dropWhile_suffix _).subset hmem)
  rw [read_header_iff, trim_append_cons isBlank_colon, lineLength_split hfront, announces_trim]

theorem colon_of_read (h : Line.read (Utf8.encode text) = .header length) : ':' ∈ text := by
  by_contra hcolon
  rw [read_header_iff] at h
  have hnone : (trim text).dropWhile (· != ':') = [] := by
    rw [List.dropWhile_eq_nil_iff]
    intro c hc
    rw [bne_iff_ne]
    rintro rfl
    have hback := (List.rdropWhile_prefix (p := isBlank) (l := trimFront text)).subset hc
    exact hcolon ((List.dropWhile_suffix _).subset hback)
  rw [lineLength, hnone] at h
  cases h

theorem encode_eq_line (hfeed : 0x0A ∉ line) (h : Utf8.encode text = line ++ [0x0A]) :
    ∃ front, text = front ++ ['\n'] ∧ '\n' ∉ front ∧ Utf8.encode front = line := by
  have hmem : '\n' ∈ text := feed_mem_encode_iff.mp (by rw [h]; simp)
  obtain ⟨front, back, rfl, hfront⟩ := List.eq_append_cons_of_mem hmem
  have hnewline : Utf8.encode ['\n'] = [0x0A] := by decide
  rw [List.append_cons, Utf8.encode_append, Utf8.encode_append, hnewline, List.append_assoc,
    List.singleton_append, eq_comm, List.append_cons_inj_of_notMem hfeed List.not_mem_nil] at h
  obtain ⟨hline, -, hback⟩ := h
  obtain rfl := encode_eq_nil_iff.mp hback.symm
  exact ⟨front, rfl, hfront, hline.symm⟩

theorem exists_text {octets : List UInt8} {line : Line} (hread : Line.read octets = line)
    (h : ∀ e, line ≠ .bad e) : ∃ text, Utf8.encode text = octets := by
  cases hdecode : Utf8.decode octets with
  | ok text => exact ⟨text, Utf8.decode_eq_ok_iff.mp hdecode⟩
  | error fault =>
    rw [Line.read, hdecode] at hread
    exact absurd hread.symm (h _)

theorem Header.feed_octets (h : Header) : 0x0A ∉ Utf8.encode (h.name ++ ':' :: h.value) :=
  mt feed_mem_encode_iff.mp h.feed

theorem Header.read (h : Header) : Line.read h.octets = .header h.length := by
  have hnewline : Utf8.encode ['\n'] = [0x0A] := by decide
  have hoctets : h.octets = Utf8.encode (h.name ++ ':' :: (h.value ++ ['\n'])) := by
    rw [Header.octets, ← hnewline, ← Utf8.encode_append]
    simp
  rw [hoctets, read_split h.colon, ← announces_concat]
  exact h.announces

theorem exists_header (hfeed : 0x0A ∉ line) (h : Line.read (line ++ [0x0A]) = .header length) :
    ∃ header : Header, header.octets = line ++ [0x0A] ∧ header.length = length := by
  obtain ⟨text, htext⟩ := exists_text h (by simp)
  obtain ⟨front, rfl, hfront, rfl⟩ := encode_eq_line hfeed htext
  rw [← htext] at h
  have hcolon := colon_of_read h
  obtain ⟨name, value, rfl, hname⟩ := List.eq_append_cons_of_mem
    ((List.mem_append.mp hcolon).resolve_right (by decide))
  rw [List.append_assoc, List.cons_append, read_split hname, ← announces_concat] at h
  exact ⟨⟨name, value, length, hname, hfront, h⟩, rfl, rfl⟩

theorem BlankLine.read (b : BlankLine) : Line.read b.octets = .blank := by
  have hnewline : Utf8.encode ['\n'] = [0x0A] := by decide
  have hblank := b.blank
  unfold BlankLine.octets
  cases b.ended with
  | false => simpa [read_blank_iff] using hblank
  | true =>
    rw [if_pos rfl, ← hnewline, ← Utf8.encode_append, read_blank_iff]
    intro c hc
    rcases List.mem_append.mp hc with hc | hc
    · exact hblank c hc
    · rw [List.mem_singleton.mp hc]
      rfl

/-! ## Lines on a closed stream -/

/-- A line in front of the rest of a closed stream: it ends with its first line feed, or where the
stream ends. -/
def LineBefore (line rest : List UInt8) : Prop :=
  (∃ front, 0x0A ∉ front ∧ line = front ++ [0x0A]) ∨ (0x0A ∉ line ∧ line ≠ [] ∧ rest = [])

theorem exists_lineBefore (hsome : bytes ≠ []) :
    ∃ line rest, bytes = line ++ rest ∧ LineBefore line rest := by
  by_cases hmem : 0x0A ∈ bytes
  · obtain ⟨front, rest, rfl, hfront⟩ := List.eq_append_cons_of_mem hmem
    exact ⟨front ++ [0x0A], rest, by simp, .inl ⟨front, hfront, rfl⟩⟩
  · exact ⟨bytes, [], by simp, .inr ⟨hmem, hsome, rfl⟩⟩

theorem LineBefore.ne_nil (h : LineBefore line rest) : line ≠ [] := by
  rcases h with ⟨front, -, rfl⟩ | ⟨-, hsome, -⟩
  · simp
  · exact hsome

theorem BlankLine.lineBefore (blank : BlankLine) (hend : blank.ended = true ∨ rest = []) :
    LineBefore blank.octets rest := by
  have hfeed : 0x0A ∉ Utf8.encode blank.blanks := mt feed_mem_encode_iff.mp blank.feed
  unfold BlankLine.octets
  cases hended : blank.ended with
  | true => exact .inl ⟨Utf8.encode blank.blanks, hfeed, rfl⟩
  | false =>
    have hsome := blank.nonempty.resolve_left (by simp [hended])
    have hrest := hend.resolve_left (by simp [hended])
    refine .inr ⟨?_, ?_, hrest⟩
    · simpa using hfeed
    · simpa [encode_eq_nil_iff] using hsome

theorem exists_blank (hline : LineBefore line rest) (h : Line.read line = .blank) :
    ∃ blank : BlankLine, blank.octets = line ∧ (blank.ended = true ∨ rest = []) := by
  obtain ⟨text, htext⟩ := exists_text h (by simp)
  rw [← htext, read_blank_iff] at h
  rcases hline with ⟨front, hfeed, rfl⟩ | ⟨hfeed, hsome, hrest⟩
  · obtain ⟨blanks, rfl, hblanks, rfl⟩ := encode_eq_line hfeed htext
    have hblank : ∀ c ∈ blanks, isBlank c = true := fun c hc => h c (List.mem_append_left _ hc)
    exact ⟨⟨blanks, true, hblank, hblanks, .inl rfl⟩, rfl, .inl rfl⟩
  · subst htext
    have hfront : '\n' ∉ text := mt feed_mem_encode_iff.mpr hfeed
    have hne : text ≠ [] := mt encode_eq_nil_iff.mpr hsome
    exact ⟨⟨text, false, h, hfront, .inr hne⟩, List.append_nil _, .inr hrest⟩

/-- The end of the stream ends a line as a line feed does. -/
theorem readBlock_end (length : Option Nat) (seen : Bool) (front : List UInt8) (hline : 0x0A ∉ line)
    (hsome : front.reverse ++ line ≠ []) :
    readBlock .closed length seen front line =
      afterLine .closed length [] (Line.read (front.reverse ++ line)) := by
  induction line generalizing front with
  | nil =>
    rw [List.append_nil] at hsome ⊢
    rw [readBlock, endOfBlock]
    · cases Line.read front.reverse <;> rfl
    · exact hsome
  | cons b line ih =>
    obtain ⟨hb, hrest⟩ := not_or.mp (mt List.mem_cons.mpr hline)
    rw [readBlock, if_neg (Ne.symm hb), ih _ hrest (by simp), List.reverse_cons, List.append_assoc,
      List.singleton_append]

theorem readBlock_lineBefore (length : Option Nat) (seen : Bool) (h : LineBefore line rest) :
    readBlock .closed length seen [] (line ++ rest) =
      afterLine .closed length rest (Line.read line) := by
  rcases h with ⟨front, hfeed, rfl⟩ | ⟨hfeed, hsome, rfl⟩
  · rw [List.append_assoc, List.singleton_append, readBlock_line .closed length seen hfeed,
      List.reverse_nil, List.nil_append]
  · rw [List.append_nil, readBlock_end length seen [] hfeed hsome, List.reverse_nil, List.nil_append]

/-! ## Header blocks -/

theorem readBlock_headers (ending : Ending) (before : Option Nat) (seen : Bool)
    (headers : List Header) (rest : List UInt8) :
    readBlock ending before seen [] (headers.flatMap Header.octets ++ rest) =
      readBlock ending (lastLength before headers) (seen || !headers.isEmpty) [] rest := by
  induction headers generalizing before seen with
  | nil => simp [lastLength]
  | cons h headers ih =>
    rw [List.flatMap_cons, Header.octets, List.append_assoc, List.append_assoc,
      List.singleton_append, readBlock_line ending before seen h.feed_octets, List.reverse_nil,
      List.nil_append]
    change afterLine ending before _ (Line.read h.octets) = _
    rw [h.read, afterLine, ih, lastLength_cons]
    simp

theorem ofLength_eq_complete {rest' : List UInt8} :
    Block.ofLength length rest = .complete n rest' ↔
      length = some n ∧ n ≤ maxPayload ∧ rest = rest' := by
  unfold Block.ofLength blockLength
  cases length with
  | none => simp
  | some m =>
    by_cases hm : maxPayload < m
    · simp only [hm, if_true, reduceCtorEq, Option.some.injEq, false_iff]
      rintro ⟨rfl, hle, -⟩
      omega
    · simp only [hm, if_false, Block.complete.injEq, Option.some.injEq]
      constructor
      · rintro ⟨rfl, rfl⟩
        exact ⟨rfl, Nat.le_of_not_lt hm, rfl⟩
      · rintro ⟨rfl, -, rfl⟩
        exact ⟨rfl, rfl⟩

/-- What can come of a block on a closed stream: the argument of every statement about all blocks,
line by line. -/
theorem block_induction {motive : Option Nat → Bool → List UInt8 → Prop}
    (empty : ∀ before seen, motive before seen [])
    (blank : ∀ before seen line rest, LineBefore line rest → Line.read line = .blank →
      motive before seen (line ++ rest))
    (header : ∀ before seen line rest found, LineBefore line rest →
      Line.read line = .header found → motive (found.or before) true rest →
      motive before seen (line ++ rest))
    (bad : ∀ before seen line rest e, LineBefore line rest → Line.read line = .bad e →
      motive before seen (line ++ rest))
    (before : Option Nat) (seen : Bool) (bytes : List UInt8) : motive before seen bytes := by
  induction hk : bytes.length using Nat.strongRecOn generalizing before seen bytes with
  | ind k ih =>
    by_cases hsome : bytes = []
    · rw [hsome]
      exact empty before seen
    · obtain ⟨line, rest, rfl, hline⟩ := exists_lineBefore hsome
      cases hread : Line.read line with
      | blank => exact blank before seen line rest hline hread
      | bad e => exact bad before seen line rest e hline hread
      | header found =>
        have hpos := List.length_pos_of_ne_nil hline.ne_nil
        have hless : rest.length < k := by
          rw [← hk, List.length_append]
          omega
        exact header before seen line rest found hline hread (ih _ hless _ _ _ rfl)

theorem exists_of_readBlock {before : Option Nat} {seen : Bool}
    (h : readBlock .closed before seen [] bytes = .complete n rest) :
    ∃ (headers : List Header) (blank : BlankLine),
      bytes = headers.flatMap Header.octets ++ blank.octets ++ rest ∧
      lastLength before headers = some n ∧ n ≤ maxPayload ∧ (blank.ended = true ∨ rest = []) := by
  induction before, seen, bytes using block_induction with
  | empty before seen => cases seen <;> cases h
  | blank before seen line more hline hread =>
    rw [readBlock_lineBefore before seen hline, hread, afterLine, ofLength_eq_complete] at h
    obtain ⟨hlength, hmax, rfl⟩ := h
    obtain ⟨blank, rfl, hend⟩ := exists_blank hline hread
    exact ⟨[], blank, rfl, hlength, hmax, hend⟩
  | header before seen line more found hline hread ih =>
    rw [readBlock_lineBefore before seen hline, hread, afterLine] at h
    rcases hline with ⟨front, hfeed, rfl⟩ | ⟨-, -, rfl⟩
    · obtain ⟨header, hoctets, rfl⟩ := exists_header hfeed hread
      obtain ⟨headers, blank, rfl, hlength, hmax, hend⟩ := ih h
      refine ⟨header :: headers, blank, ?_, ?_, hmax, hend⟩
      · simp [hoctets]
      · rw [lastLength_cons, hlength]
    · cases h
  | bad before seen line more e hline hread =>
    rw [readBlock_lineBefore before seen hline, hread, afterLine] at h
    cases h

theorem readBlock_eq_complete_iff {before : Option Nat} {seen : Bool} :
    readBlock .closed before seen [] bytes = .complete n rest ↔
      ∃ (headers : List Header) (blank : BlankLine),
        bytes = headers.flatMap Header.octets ++ blank.octets ++ rest ∧
        lastLength before headers = some n ∧ n ≤ maxPayload ∧ (blank.ended = true ∨ rest = []) := by
  constructor
  · exact exists_of_readBlock
  · rintro ⟨headers, blank, rfl, hlength, hmax, hend⟩
    rw [List.append_assoc, readBlock_headers, readBlock_lineBefore _ _ (blank.lineBefore hend),
      blank.read, afterLine, ofLength_eq_complete]
    exact ⟨hlength, hmax, rfl⟩

/-- Whether headers came before matters only where nothing comes behind them. -/
theorem readBlock_seen (before : Option Nat) (seen seen' : Bool) (hsome : bytes ≠ []) :
    readBlock .closed before seen [] bytes = readBlock .closed before seen' [] bytes := by
  obtain ⟨line, rest, rfl, hline⟩ := exists_lineBefore hsome
  rw [readBlock_lineBefore before seen hline, readBlock_lineBefore before seen' hline]

theorem read_ne_closed (line : List UInt8) : Line.read line ≠ .bad .closed := by
  unfold Line.read lineLength
  grind

theorem blockLength_ne_closed (length : Option Nat) : blockLength length ≠ .error .closed := by
  unfold blockLength
  grind

/-- On a closed stream every block comes to an end, and only a stream of nothing is reported as
closed. -/
theorem readBlock_closed (before : Option Nat) (seen : Bool) (bytes : List UInt8) :
    (∃ n rest, readBlock .closed before seen [] bytes = .complete n rest) ∨
      ∃ e rest, readBlock .closed before seen [] bytes = .bad e rest ∧
        (e = .closed ↔ seen = false ∧ bytes = []) := by
  induction before, seen, bytes using block_induction with
  | empty before seen =>
    refine .inr ⟨_, _, rfl, ?_⟩
    cases seen <;> simp [eofInHeaders]
  | blank before seen line rest hline hread =>
    have hne := hline.ne_nil
    rw [readBlock_lineBefore before seen hline, hread, afterLine, Block.ofLength]
    cases hlength : blockLength before with
    | ok n => exact .inl ⟨n, rest, rfl⟩
    | error e =>
      refine .inr ⟨e, rest, rfl, ?_⟩
      simp only [List.append_eq_nil_iff, hne, false_and, and_false, iff_false]
      rintro rfl
      exact blockLength_ne_closed before hlength
  | header before seen line rest found hline hread ih =>
    have hne := hline.ne_nil
    rw [readBlock_lineBefore before seen hline, hread, afterLine]
    simpa [hne] using ih
  | bad before seen line rest e hline hread =>
    have hne := hline.ne_nil
    rw [readBlock_lineBefore before seen hline, hread, afterLine]
    refine .inr ⟨e, rest, rfl, ?_⟩
    simp only [List.append_eq_nil_iff, hne, false_and, and_false, iff_false]
    rintro rfl
    exact read_ne_closed line hread

/-! ## Receiving -/

theorem receive_eq_payload_iff {p r : List UInt8} :
    receive ⟨s, .closed⟩ = (.payload p, ⟨r, .closed⟩) ↔
      readBlock .closed none false [] s = .complete p.length (p ++ r) := by
  unfold receive
  rcases readBlock_closed none false s with ⟨n, rest, hblock⟩ | ⟨e, rest, hblock, -⟩
  · simp only [hblock, receivePayload, Block.complete.injEq]
    split
    · next hle =>
      simp only [Prod.mk.injEq, Received.payload.injEq, Stream.mk.injEq, and_true]
      constructor
      · rintro ⟨rfl, rfl⟩
        exact ⟨(List.length_take_of_le hle).symm, (List.take_append_drop n rest).symm⟩
      · rintro ⟨rfl, rfl⟩
        exact ⟨List.take_left, List.drop_left⟩
    · next hlong =>
      simp only [Prod.mk.injEq, reduceCtorEq, false_and, false_iff]
      rintro ⟨rfl, rfl⟩
      simp at hlong
  · simp [hblock]

theorem receive_congr {s' : List UInt8}
    (h : readBlock .closed none false [] s = readBlock .closed none false [] s') :
    receive ⟨s, .closed⟩ = receive ⟨s', .closed⟩ := by
  unfold receive
  rcases readBlock_closed none false s with ⟨n, rest, hblock⟩ | ⟨e, rest, hblock, -⟩
  · simp only [← h, hblock]
    rfl
  · simp only [← h, hblock]

theorem receive_eq_closed_iff :
    (receive ⟨s, .closed⟩).1 = .failure .closed ↔ s = [] := by
  unfold receive
  rcases readBlock_closed none false s with ⟨n, rest, hblock⟩ | ⟨e, rest, hblock, hclosed⟩
  · have hne : s ≠ [] := by
      rintro rfl
      cases hblock
    simp only [hblock, receivePayload, hne, iff_false]
    split <;> simp [eofInPayload]
  · simpa [hblock] using hclosed

theorem receive_headers {headers headers' : List Header}
    (hlast : lastLength none headers = lastLength none headers')
    (hsome : rest ≠ [] ∨ (headers = [] ↔ headers' = [])) :
    receive ⟨headers.flatMap Header.octets ++ rest, .closed⟩ =
      receive ⟨headers'.flatMap Header.octets ++ rest, .closed⟩ := by
  apply receive_congr
  rw [readBlock_headers, readBlock_headers, hlast]
  rcases hsome with hsome | hsome
  · exact readBlock_seen _ _ _ hsome
  · have hempty : headers.isEmpty = headers'.isEmpty := by
      rw [Bool.eq_iff_iff, List.isEmpty_iff, List.isEmpty_iff, hsome]
    rw [hempty]

/-- A payload is received from a stream that has ended if and only if the stream is headers, a blank
line, the payload and what is left behind it, and the last length that the headers name is the
payload's and not too large; a blank line without a line feed is the end of the stream. So headers
that do not name the length, the order of headers and the case of their names never matter, and the
stream is reported as closed only where it holds nothing at all. -/
theorem receive_follows_grammar :
    (∀ s p r : List UInt8,
      receive ⟨s, .closed⟩ = (.payload p, ⟨r, .closed⟩) ↔
        ∃ (headers : List Header) (blank : BlankLine),
          s = headers.flatMap Header.octets ++ blank.octets ++ p ++ r ∧
          lastLength none headers = some p.length ∧ p.length ≤ maxPayload ∧
          (blank.ended = true ∨ p ++ r = [])) ∧
    (∀ (headers headers' : List Header) (rest : List UInt8),
      lastLength none headers = lastLength none headers' →
      rest ≠ [] ∨ (headers = [] ↔ headers' = []) →
      receive ⟨headers.flatMap Header.octets ++ rest, .closed⟩ =
        receive ⟨headers'.flatMap Header.octets ++ rest, .closed⟩) ∧
    (∀ (front back : List Header) (h : Header) (name : List Char) (same : lower name = lower h.name)
      (rest : List UInt8),
      receive ⟨(front ++ h.recase name same :: back).flatMap Header.octets ++ rest, .closed⟩ =
        receive ⟨(front ++ h :: back).flatMap Header.octets ++ rest, .closed⟩) ∧
    ∀ s : List UInt8, (receive ⟨s, .closed⟩).1 = .failure .closed ↔ s = [] := by
  refine ⟨?_, ?_, ?_, fun s => receive_eq_closed_iff⟩
  · intro s p r
    rw [receive_eq_payload_iff, readBlock_eq_complete_iff]
    simp only [List.append_assoc]
  · intro headers headers' rest hlast hsome
    exact receive_headers hlast hsome
  · intro front back h name same rest
    refine receive_headers ?_ (.inr (by simp))
    simp [lastLength, Header.recase]

/-- A payload of two octets behind two lengths, the second in small letters with a sign and a zero,
and behind a line that is blank but not empty. -/
theorem receive_follows_grammar_odd_block :
    let first : Header := ⟨lengthName, [' ', '7'], some 7, by decide, by decide,
      by decide⟩
    let other : Header := ⟨['X'], [], none, by decide, by decide, by decide⟩
    let second : Header := ⟨lower lengthName, ['+', '0', '2', '\r'], some 2, by decide, by decide,
      by decide⟩
    let blank : BlankLine := ⟨['\u2003', '\r'], true,
      List.forall_mem_cons.mpr ⟨by decide, List.forall_mem_singleton.mpr (by decide)⟩, by decide,
      .inl rfl⟩
    let payload : List UInt8 := [0x7B, 0x7D]
    let behind : List UInt8 := blank.octets ++ payload ++ [0x0A]
    receive ⟨[first, other, second].flatMap Header.octets ++ behind, .closed⟩ =
      (.payload payload, ⟨[0x0A], .closed⟩) ∧
    receive ⟨[second, other].flatMap Header.octets ++ behind, .closed⟩ =
      receive ⟨[first, other, second].flatMap Header.octets ++ behind, .closed⟩ := by
  intro first other second blank payload behind
  obtain ⟨hpayload, hheaders, -⟩ := receive_follows_grammar
  refine ⟨?_, ?_⟩
  · refine (hpayload _ _ _).mpr ⟨[first, other, second], blank, ?_, rfl, by decide, .inl rfl⟩
    simp [behind]
  · exact hheaders [second, other] [first, other, second] behind rfl (.inr (by simp))

end LanguageClient.Frame
