import LanguageClient.Frame.Reader
import LanguageClient.Frame.Writer
import LanguageClient.Proofs.Text
import Mathlib.Data.List.Basic

/-!
# Frames come back as they were sent

A reader takes the very payloads off a stream that were put on it, in their order, and then stands
where the last frame ends. Nothing is asked of the payloads but that they are not too long: the
length in front of a payload says where it ends, so octets in it that look like a header are never
looked at.

On the writer's side, a sink that takes octets at all takes the whole frame, in however small pieces
(`Sink.send_of_open`). On the reader's side, a header block is read line by line
(`readBlock_line`), and the block that the writer produces consists of one line that names the length
and of a blank one (`readBlock_header`).
-/

namespace LanguageClient.Frame

open Text

/-! ## Sending -/

namespace Sink

/-- A sink that takes what is written to it, however little at a time. -/
def Open (s : Sink) : Prop := s.room = none ∧ s.step ≠ some 0

def sendAll (s : Sink) : List (List UInt8) → Except FramingError Unit × Sink
  | [] => (.ok (), s)
  | payload :: payloads =>
    match s.send payload with
    | (.ok _, s) => s.sendAll payloads
    | (.error e, s) => (.error e, s)

variable {s : Sink}

theorem Open.accepts_pos (h : s.Open) {n : Nat} (hn : 0 < n) : 0 < s.accepts n := by
  obtain ⟨hroom, hstep⟩ := h
  unfold accepts
  rw [hroom]
  cases hs : s.step with
  | none => simpa using hn
  | some k =>
    have hk : k ≠ 0 := fun heq => hstep (heq ▸ hs)
    simp only [Option.getD_some, Option.getD_none]
    omega

theorem Open.writeAllWithin (h : s.Open) {fuel : Nat} {bytes : List UInt8}
    (hfuel : bytes.length < fuel) :
    s.writeAllWithin fuel bytes = (.ok (), { s with written := s.written ++ bytes }) := by
  induction fuel generalizing s bytes with
  | zero => omega
  | succ fuel ih =>
    cases bytes with
    | nil => simp [Sink.writeAllWithin]
    | cons b bytes =>
      have hpos := h.accepts_pos (n := (b :: bytes).length) (by simp)
      rw [Sink.writeAllWithin]
      · cases hk : s.accepts (b :: bytes).length with
        | zero => omega
        | succ k =>
          have hopen : (s.accept ((b :: bytes).take (k + 1))).Open := ⟨by simp [accept, h.1], h.2⟩
          have hless : ((b :: bytes).drop (k + 1)).length < fuel := by
            rw [List.length_drop]
            simp only [List.length_cons] at hfuel ⊢
            omega
          refine (ih hopen hless).trans ?_
          simp [accept, h.1, List.append_assoc]
      · nofun

theorem send_of_open (h : s.Open) (payload : List UInt8) :
    s.send payload = (.ok (),
      { s with written := s.written ++ encode payload, flushes := s.flushes + 1 }) := by
  have hopen : ∀ bytes, Open { s with written := s.written ++ bytes } := fun _ => h
  rw [send, writeAll, h.writeAllWithin (Nat.lt_succ_self _)]
  dsimp only
  rw [writeAll, (hopen _).writeAllWithin (Nat.lt_succ_self _), encode]
  simp

theorem sendAll_of_open (h : s.Open) (payloads : List (List UInt8)) :
    (s.sendAll payloads).1 = .ok () ∧
      (s.sendAll payloads).2.written = s.written ++ payloads.flatMap encode := by
  induction payloads generalizing s with
  | nil => simp [sendAll]
  | cons payload payloads ih =>
    rw [sendAll, send_of_open h]
    obtain ⟨hok, hwritten⟩ := ih (s := { s with
      written := s.written ++ encode payload, flushes := s.flushes + 1 }) h
    exact ⟨hok, by rw [hwritten, List.flatMap_cons, List.append_assoc]⟩

end Sink

/-! ## The header block -/

/-- What follows from one line of a header block: `length` is the last length seen before it, and
`rest` are the octets behind the line. -/
def afterLine (ending : Ending) (length : Option Nat) (rest : List UInt8) : Line → Block
  | .blank => .ofLength length rest
  | .header found => readBlock ending (found.or length) true [] rest
  | .bad e => .bad e rest

theorem readBlock_line (ending : Ending) (length : Option Nat) (seen : Bool)
    {front line : List UInt8} (hline : 0x0A ∉ line) (rest : List UInt8) :
    readBlock ending length seen front (line ++ 0x0A :: rest) =
      afterLine ending length rest (Line.read (front.reverse ++ line ++ [0x0A])) := by
  induction line generalizing front with
  | nil =>
    rw [List.nil_append, readBlock, if_pos rfl, List.reverse_cons, List.append_nil]
    cases Line.read (front.reverse ++ [0x0A]) with
    | header found => cases found <;> rfl
    | _ => rfl
  | cons b line ih =>
    obtain ⟨hb, hrest⟩ := not_or.mp (mt List.mem_cons.mpr hline)
    rw [List.cons_append, readBlock, if_neg (Ne.symm hb), ih hrest, List.reverse_cons,
      List.append_assoc front.reverse, List.cons_append, List.nil_append]

def lengthLine (n : Nat) : List Char := lengthName ++ [':', ' '] ++ numeral n

theorem mem_lengthLine {c : Char} {n : Nat} (h : c ∈ lengthLine n) :
    c ∈ lengthName ++ [':', ' '] ∨ c.isDigit = true :=
  (List.mem_append.mp h).imp_right isDigit_of_mem_numeral

theorem lineLength_lengthLine {n : Nat} (h : n ≤ maxWord64) :
    lineLength (lengthLine n) = .ok (some n) := by
  have hname : ∀ c ∈ lengthName, (c != ':') = true := List.all_eq_true.mp (by decide)
  have hcolon : (':' != ':') = false := rfl
  have hsplit : lengthLine n = lengthName ++ ':' :: ' ' :: numeral n := by simp [lengthLine]
  have hbefore : (lengthLine n).takeWhile (· != ':') = lengthName := by
    rw [hsplit, List.takeWhile_append_of_pos hname, List.takeWhile_cons, hcolon]
    exact List.append_nil _
  have hbehind : (lengthLine n).dropWhile (· != ':') = ':' :: ' ' :: numeral n := by
    rw [hsplit, List.dropWhile_append_of_pos hname, List.dropWhile_cons, hcolon]
    rfl
  have htrim : trim lengthName = lengthName := by decide
  have hsame : sameIgnoringCase lengthName lengthName = true := by decide
  rw [lineLength, hbehind, hbefore]
  dsimp only
  rw [htrim, if_pos hsame, trim_cons (by decide), trim_numeral, readNumeral_numeral h]

theorem read_lengthLine {n : Nat} (h : n ≤ maxWord64) :
    Line.read (Utf8.encode (lengthLine n ++ ['\r', '\n'])) = .header (some n) := by
  have htrim : trim (lengthLine n ++ ['\r', '\n']) = lengthLine n := by
    refine trim_append (fun c hc => ?_) (fun c hc => ?_) (List.all_eq_true.mp (by decide))
    · have hhead : (lengthLine n).head? = some 'C' := rfl
      rw [hhead, Option.mem_some] at hc
      exact hc ▸ by decide
    · have hdigits : numeral n ≠ [] := Nat.toDigits_ne_nil
      rw [lengthLine, List.getLast?_append_of_ne_nil _ hdigits] at hc
      exact isBlank_of_isDigit (isDigit_of_mem_numeral (List.mem_of_mem_getLast? hc))
  have hline : lengthLine n ≠ [] := nofun
  unfold Line.read
  rw [Utf8.decode_encode]
  dsimp only
  rw [htrim]
  split
  · next hnil => exact absurd hnil hline
  · rw [lineLength_lengthLine h]

/-! The writer's header block is two lines, each with a carriage return before its line feed. -/

theorem feed_notMem_lengthLine (n : Nat) : 0x0A ∉ Utf8.encode (lengthLine n ++ ['\r']) := by
  intro hmem
  have hchar := Utf8.mem_encode_ascii (by decide) hmem
  rcases List.mem_append.mp hchar with hchar | hchar
  · rcases mem_lengthLine hchar with hname | hdigit
    · exact absurd hname (by decide)
    · exact absurd hdigit (by decide)
  · exact absurd hchar (by decide)

theorem header_lines (n : Nat) (rest : List UInt8) :
    header n ++ rest = Utf8.encode (lengthLine n ++ ['\r']) ++ 0x0A :: ([0x0D] ++ 0x0A :: rest) := by
  have htext : headerText n = (lengthLine n ++ ['\r']) ++ ['\n', '\r', '\n'] := by
    simp [headerText, lengthLine]
  have hend : Utf8.encode ['\n', '\r', '\n'] = [0x0A, 0x0D, 0x0A] := by decide
  rw [header, htext, Utf8.encode_append, hend]
  simp

theorem readBlock_lengthLine (ending : Ending) {n : Nat} (h : n ≤ maxWord64) (rest : List UInt8) :
    readBlock ending none false [] (Utf8.encode (lengthLine n ++ ['\r']) ++ 0x0A :: rest) =
      readBlock ending (some n) true [] rest := by
  have hfirst : Line.read (Utf8.encode (lengthLine n ++ ['\r']) ++ [0x0A]) = .header (some n) := by
    have hend : Utf8.encode ['\n'] = [0x0A] := by decide
    rw [← hend, ← Utf8.encode_append, List.append_assoc]
    exact read_lengthLine h
  rw [readBlock_line ending none false (feed_notMem_lengthLine n), List.reverse_nil,
    List.nil_append, hfirst, afterLine, Option.some_or]

theorem readBlock_header (ending : Ending) {n : Nat} (h : n ≤ maxWord64) (rest : List UInt8) :
    readBlock ending none false [] (header n ++ rest) = .ofLength (some n) rest := by
  have hsecond : Line.read ([0x0D] ++ [0x0A]) = .blank := by decide
  rw [header_lines, readBlock_lengthLine ending h, readBlock_line ending _ true (by decide),
    List.reverse_nil, List.nil_append, hsecond]
  rfl

/-! ## Receiving -/

/-- What is left of a stream after frames have been taken off it a number of times. -/
def leftAfter : Nat → Stream → Stream
  | 0, s => s
  | n + 1, s => leftAfter n (receive s).2

theorem receive_encode {payload : List UInt8} (h : payload.length ≤ maxPayload)
    (rest : List UInt8) (ending : Ending) :
    receive ⟨encode payload ++ rest, ending⟩ = (.payload payload, ⟨rest, ending⟩) := by
  have hword : payload.length ≤ maxWord64 := Nat.le_trans h (by decide)
  rw [receive, encode, List.append_assoc]
  dsimp only
  rw [readBlock_header ending hword, Block.ofLength, blockLength, if_neg (Nat.not_lt.mpr h)]
  dsimp only
  rw [receivePayload, if_pos (by simp), List.take_left, List.drop_left]

/-- A header block that announces too much is refused, whatever stands behind it. -/
theorem receive_of_tooLarge {n : Nat} (h : maxPayload < n) (hword : n ≤ maxWord64)
    (rest : List UInt8) (ending : Ending) :
    receive ⟨header n ++ rest, ending⟩ =
      (.failure (.frameTooLarge n maxPayload), ⟨rest, ending⟩) := by
  rw [receive]
  dsimp only
  rw [readBlock_header ending hword, Block.ofLength, blockLength, if_pos h]

theorem receive_frames {payloads : List (List UInt8)} (h : ∀ p ∈ payloads, p.length ≤ maxPayload)
    (rest : List UInt8) (ending : Ending) :
    receiveTimes payloads.length ⟨payloads.flatMap encode ++ rest, ending⟩ =
        payloads.map .payload ∧
      leftAfter payloads.length ⟨payloads.flatMap encode ++ rest, ending⟩ = ⟨rest, ending⟩ := by
  induction payloads with
  | nil => exact ⟨rfl, rfl⟩
  | cons payload payloads ih =>
    have hfirst := receive_encode (h payload List.mem_cons_self) (payloads.flatMap encode ++ rest)
      ending
    obtain ⟨hreceived, hleft⟩ := ih fun p hp => h p (List.mem_cons_of_mem _ hp)
    rw [List.flatMap_cons, List.append_assoc, List.length_cons, receiveTimes, leftAfter, hfirst]
    exact ⟨congrArg (.payload payload :: ·) hreceived, hleft⟩

/-- Payloads that are sent through an open sink and are not too long come back in order, whatever
they hold, whatever follows them and however the stream goes on; the reader then stands where they
end. A payload that is too long, though not longer than a number of 64 bits can tell, is refused with
its length. -/
theorem frames_come_back (sink : Sink) (hopen : sink.Open) (hnew : sink.written = []) :
    (∀ (payloads : List (List UInt8)) (rest : List UInt8) (ending : Ending),
      (∀ p ∈ payloads, p.length ≤ maxPayload) →
      (sink.sendAll payloads).1 = .ok () ∧
      receiveTimes payloads.length ⟨(sink.sendAll payloads).2.written ++ rest, ending⟩ =
        payloads.map .payload ∧
      leftAfter payloads.length ⟨(sink.sendAll payloads).2.written ++ rest, ending⟩ =
        ⟨rest, ending⟩ ∧
      (rest = [] → ending = .closed →
        receive (leftAfter payloads.length ⟨(sink.sendAll payloads).2.written ++ rest, ending⟩) =
          (.failure .closed, ⟨[], .closed⟩))) ∧
    ∀ (payload rest : List UInt8) (ending : Ending), maxPayload < payload.length →
      payload.length ≤ maxWord64 →
      (sink.send payload).1 = .ok () ∧
      (receive ⟨(sink.send payload).2.written ++ rest, ending⟩).1 =
        .failure (.frameTooLarge payload.length maxPayload) := by
  refine ⟨fun payloads rest ending hfit => ?_, fun payload rest ending hlarge hword => ?_⟩
  · obtain ⟨hok, hwritten⟩ := Sink.sendAll_of_open hopen payloads
    obtain ⟨hreceived, hleft⟩ := receive_frames hfit rest ending
    rw [hwritten, hnew, List.nil_append]
    refine ⟨hok, hreceived, hleft, ?_⟩
    rintro rfl rfl
    rw [hleft]
    rfl
  · rw [Sink.send_of_open hopen, hnew]
    dsimp only
    rw [List.nil_append, encode, List.append_assoc, receive_of_tooLarge hlarge hword]
    exact ⟨rfl, rfl⟩

/-- An empty payload, one that is no text, and one that is a frame itself come back through a sink
that takes three octets at a time; a payload of one octet too many does not. -/
theorem odd_frames_come_back :
    let sink : Sink := { step := some 3 }
    let payloads : List (List UInt8) := [[], [0xFF, 0x0A, 0x00], encode [0x7B, 0x7D]]
    let large : List UInt8 := List.replicate (maxPayload + 1) 0
    receiveTimes 3 ⟨(sink.sendAll payloads).2.written, .closed⟩ = payloads.map .payload ∧
    receive (leftAfter 3 ⟨(sink.sendAll payloads).2.written, .closed⟩) =
      (.failure .closed, ⟨[], .closed⟩) ∧
    (receive ⟨(sink.send large).2.written, .closed⟩).1 =
      .failure (.frameTooLarge 67108865 67108864) := by
  intro sink payloads large
  have hlength : large.length = 67108865 := List.length_replicate
  obtain ⟨hback, hrefused⟩ := frames_come_back sink ⟨rfl, nofun⟩ rfl
  obtain ⟨-, hreceived, -, hclosed⟩ := hback payloads [] .closed (by decide)
  obtain ⟨-, htoo⟩ := hrefused large [] .closed (by rw [hlength]; decide) (by rw [hlength]; decide)
  rw [List.append_nil] at hreceived hclosed htoo
  refine ⟨hreceived, hclosed rfl rfl, ?_⟩
  rw [htoo, hlength]
  rfl

end LanguageClient.Frame
