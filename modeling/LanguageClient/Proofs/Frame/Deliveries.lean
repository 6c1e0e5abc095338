import LanguageClient.Frame.Reader

/-!
# Streams that grow

A stream reaches its reader in pieces. What the reader has once made of it stays: a frame that can be
taken off the front, or a header block that is bad, is the same frame and the same fault when more
octets arrive or when the stream ends (`receive_grow`). So it does not matter when the reader looks,
and the payloads that it has taken off so far are the first ones of the stream as a whole
(`Delivers.grow`).
-/

namespace LanguageClient.Frame

/-- The stream after more octets, and perhaps its end, have come. -/
def Stream.grow (s : Stream) (more : List UInt8) (ending : Ending) : Stream :=
  ⟨s.bytes ++ more, ending⟩

def Block.grow (more : List UInt8) : Block → Block
  | .complete length rest => .complete length (rest ++ more)
  | .bad e rest => .bad e (rest ++ more)
  | .failed cause => .failed cause
  | .waiting => .waiting

theorem grow_ofLength (length : Option Nat) (rest more : List UInt8) :
    (Block.ofLength length rest).grow more = Block.ofLength length (rest ++ more) := by
  unfold Block.ofLength
  split <;> rfl

/-- A header block that is judged while the stream goes on is judged for good. -/
theorem readBlock_grow {length : Option Nat} {seen : Bool} {line bytes : List UInt8}
    (h : readBlock .ongoing length seen line bytes ≠ .waiting) (more : List UInt8) (ending : Ending) :
    readBlock ending length seen line (bytes ++ more) =
      (readBlock .ongoing length seen line bytes).grow more := by
  induction bytes generalizing length seen line with
  | nil => exact absurd rfl h
  | cons b rest ih =>
    rw [readBlock] at h ⊢
    rw [List.cons_append, readBlock]
    by_cases hb : b = 0x0A
    · simp only [if_pos hb] at h ⊢
      split
      · exact (grow_ofLength length rest more).symm
      · next hline => exact ih (by simpa only [hline] using h)
      · next n hline => exact ih (by simpa only [hline] using h)
      · rfl
    · simp only [if_neg hb] at h ⊢
      exact ih h

theorem not_failed_of_ongoing (length : Option Nat) (seen : Bool) (line bytes : List UInt8)
    (cause : IoError) : readBlock .ongoing length seen line bytes ≠ .failed cause := by
  induction bytes generalizing length seen line with
  | nil => nofun
  | cons b rest ih =>
    rw [readBlock]
    split
    · split
      · unfold Block.ofLength
        split <;> nofun
      · exact ih _ _ _
      · exact ih _ _ _
      · nofun
    · exact ih _ _ _

theorem receive_grow {s : Stream} (hongoing : s.ending = .ongoing) (h : (receive s).1 ≠ .waiting)
    (more : List UInt8) (ending : Ending) :
    receive (s.grow more ending) = ((receive s).1, (receive s).2.grow more ending) := by
  obtain ⟨bytes, _⟩ := s
  obtain rfl := hongoing
  have hblock : readBlock .ongoing none false [] bytes ≠ .waiting := by
    intro hwait
    simp [receive, hwait] at h
  have hgrow := readBlock_grow hblock more ending
  rw [receive, receive, Stream.grow]
  dsimp only
  rw [hgrow]
  rw [receive] at h
  dsimp only at h
  cases hread : readBlock .ongoing none false [] bytes with
  | complete length rest =>
    rw [hread] at h
    dsimp only [Block.grow] at h ⊢
    -- While the stream goes on, only a payload that is there is received.
    have hlength : length ≤ rest.length := by
      refine Nat.le_of_not_lt fun hshort => h ?_
      rw [receivePayload, if_neg (Nat.not_le.mpr hshort)]
    rw [receivePayload, receivePayload, if_pos hlength, if_pos (by rw [List.length_append]; omega),
      List.take_append_of_le_length hlength, List.drop_append_of_le_length hlength]
    rfl
  | bad e rest => rfl
  | failed cause => exact absurd hread (not_failed_of_ongoing _ _ _ _ cause)
  | waiting => exact absurd hread hblock

/-! ## Deliveries -/

/-- The first frames of stream `s` carry the payloads `ps`, and `rest` is behind them. -/
inductive Delivers (s : Stream) : List (List UInt8) → Stream → Prop where
  | nothing : Delivers s [] s
  | frame {ps : List (List UInt8)} {mid rest : Stream} {p : List UInt8} (h : Delivers s ps mid)
      (hp : receive mid = (.payload p, rest)) : Delivers s (ps ++ [p]) rest

variable {s rest : Stream} {ps : List (List UInt8)}

theorem ending_of_payload {p : List UInt8} (h : receive s = (.payload p, rest)) :
    rest.ending = s.ending := by
  rw [receive] at h
  split at h
  · rw [receivePayload] at h
    split at h
    · exact (Prod.mk.inj h).2 ▸ rfl
    · split at h <;> cases h
  all_goals cases h

theorem Delivers.ending (h : Delivers s ps rest) : rest.ending = s.ending := by
  induction h with
  | nothing => rfl
  | frame h hp ih => exact (ending_of_payload hp).trans ih

theorem Delivers.grow (h : Delivers s ps rest) (hongoing : s.ending = .ongoing) (more : List UInt8)
    (ending : Ending) : Delivers (s.grow more ending) ps (rest.grow more ending) := by
  induction h with
  | nothing => exact .nothing
  | @frame ps mid rest p h hp ih =>
    have hmid : mid.ending = .ongoing := h.ending.trans hongoing
    refine .frame ih ?_
    rw [receive_grow hmid (by rw [hp]; nofun), hp]

end LanguageClient.Frame
