import LanguageClient.Proofs.Frame.RoundTrip

/-!
# Streams that consist of frames

A stream is *framed* if it consists of complete frames and, at its very end, perhaps of the beginning
of one more. A frame says itself where it ends, so that its payload and what follows it can be told
from the stream (`encode_append_inj`), and what follows a frame in a framed stream is framed again
(`framed_append_iff`).
-/

namespace LanguageClient.Frame

open Text

theorem numeral_inj {m n : Nat} (h : numeral m = numeral n) : m = n := by
  have hm := digitsValue_numeral m
  rw [h, digitsValue_numeral n] at hm
  exact (Option.some.inj hm).symm

theorem takeWhile_header (n : Nat) (rest : List UInt8) :
    (header n ++ rest).takeWhile (· != 0x0D) = Utf8.encode (lengthLine n) := by
  have hend : Utf8.encode ['\r', '\n', '\r', '\n'] = 0x0D :: [0x0A, 0x0D, 0x0A] := by decide
  have hline : ∀ b ∈ Utf8.encode (lengthLine n), (b != 0x0D) = true := by
    intro b hb
    refine bne_iff_ne.mpr ?_
    rintro rfl
    rcases mem_lengthLine (Utf8.mem_encode_ascii (by decide) hb) with hname | hdigit
    · exact absurd hname (by decide)
    · exact absurd hdigit (by decide)
  have hsplit : header n ++ rest =
      Utf8.encode (lengthLine n) ++ 0x0D :: ([0x0A, 0x0D, 0x0A] ++ rest) := by
    rw [header, headerText, Utf8.encode_append, hend, List.append_assoc]
    rfl
  rw [hsplit, List.takeWhile_append_of_pos hline, List.takeWhile_cons]
  exact List.append_nil _

theorem header_append_inj {m n : Nat} {x y : List UInt8} (h : header m ++ x = header n ++ y) :
    m = n ∧ x = y := by
  have hline : Utf8.encode (lengthLine m) = Utf8.encode (lengthLine n) := by
    rw [← takeWhile_header m x, h, takeWhile_header]
  have htext : lengthLine m = lengthLine n := by
    have hdecode := congrArg Utf8.decode hline
    rw [Utf8.decode_encode, Utf8.decode_encode] at hdecode
    exact Except.ok.inj hdecode
  obtain rfl := numeral_inj (List.append_cancel_left htext)
  exact ⟨rfl, List.append_cancel_left h⟩

/-- A frame says where it ends. -/
theorem encode_append_inj {p q x y : List UInt8} (h : encode p ++ x = encode q ++ y) :
    p = q ∧ x = y := by
  rw [encode, encode, List.append_assoc, List.append_assoc] at h
  obtain ⟨hlength, hrest⟩ := header_append_inj h
  exact List.append_inj hrest hlength

/-- Complete frames, followed by at most one that is not. -/
def Framed (stream : List UInt8) : Prop :=
  ∃ (payloads : List (List UInt8)) (part payload : List UInt8),
    stream = payloads.flatMap encode ++ part ∧ part <+: encode payload

theorem framed_of_prefix {part payload : List UInt8} (h : part <+: encode payload) : Framed part :=
  ⟨[], part, payload, rfl, h⟩

theorem framed_append_iff {payload rest : List UInt8} :
    Framed (encode payload ++ rest) ↔ Framed rest := by
  constructor
  · rintro ⟨payloads, part, last, hstream, hpart⟩
    cases payloads with
    | nil =>
      obtain ⟨more, hmore⟩ := hpart
      rw [List.flatMap_nil, List.nil_append] at hstream
      rw [← hstream, List.append_assoc, ← List.append_nil (encode last)] at hmore
      have hnil := (encode_append_inj hmore).2
      rw [(List.append_eq_nil_iff.mp hnil).1]
      exact framed_of_prefix (List.nil_prefix : [] <+: encode [])
    | cons first payloads =>
      rw [List.flatMap_cons, List.append_assoc] at hstream
      exact ⟨payloads, part, last, (encode_append_inj hstream).2, hpart⟩
  · rintro ⟨payloads, part, last, rfl, hpart⟩
    exact ⟨payload :: payloads, part, last, by rw [List.flatMap_cons, List.append_assoc], hpart⟩

theorem framed_flatMap_append_iff {payloads : List (List UInt8)} {rest : List UInt8} :
    Framed (payloads.flatMap encode ++ rest) ↔ Framed rest := by
  induction payloads with
  | nil => exact Iff.rfl
  | cons first payloads ih =>
    rw [List.flatMap_cons, List.append_assoc, framed_append_iff]
    exact ih

theorem Framed.head_eq {b : UInt8} {rest : List UInt8} (h : Framed (b :: rest)) : b = 0x43 := by
  obtain ⟨payloads, part, last, hstream, more, hmore⟩ := h
  have hhead : ∀ payload, (encode payload).head? = some 0x43 := fun _ => rfl
  cases payloads with
  | nil =>
    rw [List.flatMap_nil, List.nil_append] at hstream
    have hlast := hhead last
    rw [← hmore, ← hstream] at hlast
    exact Option.some.inj hlast
  | cons first payloads =>
    have hfirst : (b :: rest).head? = some 0x43 := by
      rw [hstream, List.flatMap_cons, List.append_assoc, encode, List.append_assoc]
      rfl
    exact Option.some.inj hfirst

end LanguageClient.Frame
