import LanguageClient.Proofs.Text.Readings

/-!
# What splitting into words gives

The words of a text are collected character by character. Here they are what one would write down
instead: the pieces between blanks, without the empty ones (`words_eq`). That a text has no word and
that nothing is left of it after trimming are then one and the same thing, namely that it is all
blank (`trimmed_eq_empty_iff`).

A line that is made of words by putting a blank between them has these words and no others
(`wordsOf_line`), whatever characters they are made of.
-/

namespace LanguageClient.Text

/-- The pieces of a text between its blanks, without the empty ones. -/
def pieces (cs : List Char) : List (List Char) := (cs.splitOnP isBlank).filter (!·.isEmpty)

theorem wordsFrom_cons (word : List Char) (c : Char) (cs : List Char) :
    wordsFrom word (c :: cs) =
      if isBlank c then (if word = [] then wordsFrom [] cs else word.reverse :: wordsFrom [] cs)
      else wordsFrom (c :: word) cs := by
  cases word <;> simp [wordsFrom]

/-- The induction is over the text. The word being collected is what the library's splitter keeps in
its accumulator. -/
theorem wordsFrom_eq (word cs : List Char) :
    wordsFrom word cs = (cs.splitOnPPrepend isBlank word).filter (!·.isEmpty) := by
  induction cs generalizing word with
  | nil => cases word <;> simp [wordsFrom]
  | cons c cs ih =>
    rw [wordsFrom_cons]
    by_cases hc : isBlank c = true
    · rw [if_pos hc, List.splitOnPPrepend_cons_pos hc, ih]
      cases word <;> simp
    · rw [if_neg hc, List.splitOnPPrepend_cons_neg (by simpa using hc), ih]

theorem words_eq (cs : List Char) : words cs = pieces cs := by
  rw [words, wordsFrom_eq, List.splitOnPPrepend_nil_right, pieces]

theorem wordsOf_eq (text : String) : wordsOf text = (pieces text.toList).map String.ofList := by
  rw [wordsOf, words_eq]

/-- A word that has been begun comes out in the end, whatever follows. -/
theorem wordsFrom_eq_nil_iff {word cs : List Char} :
    wordsFrom word cs = [] ↔ word = [] ∧ ∀ c ∈ cs, isBlank c = true := by
  induction cs generalizing word with
  | nil => cases word <;> simp [wordsFrom]
  | cons c cs ih =>
    rw [wordsFrom_cons, List.forall_mem_cons]
    by_cases hc : isBlank c = true
    · by_cases hw : word = [] <;> simp [hc, hw, ih]
    · simp [hc, ih]

theorem words_eq_nil_iff {cs : List Char} : words cs = [] ↔ ∀ c ∈ cs, isBlank c = true := by
  simp [words, wordsFrom_eq_nil_iff]

theorem trimmed_eq_empty_iff (text : String) : trimmed text = "" ↔ wordsOf text = [] := by
  have htrim : trimmed text = "" ↔ trim text.toList = [] := by
    rw [trimmed, ← String.toList_inj]
    simp
  rw [htrim, trim_eq_nil_iff, wordsOf, List.map_eq_nil_iff, words_eq_nil_iff]

theorem wordsOf_eq_nil_iff {text : String} :
    wordsOf text = [] ↔ ∀ c ∈ text.toList, isBlank c = true := by
  rw [wordsOf, List.map_eq_nil_iff, words_eq_nil_iff]

/-! ## Lines of words -/

/-- A text that is one word: there is something in it, and no blank. -/
def IsWord (text : String) : Prop := text ≠ "" ∧ ∀ c ∈ text.toList, isBlank c = false

/-- The word that is being collected holds no blank, so neither does one that comes out. -/
theorem mem_wordsFrom {word cs w : List Char} (hword : ∀ c ∈ word, isBlank c = false)
    (hw : w ∈ wordsFrom word cs) : w ≠ [] ∧ ∀ c ∈ w, isBlank c = false := by
  induction cs generalizing word with
  | nil =>
    cases word with
    | nil => cases hw
    | cons b word =>
      obtain rfl := List.mem_singleton.mp hw
      exact ⟨by simp, fun c hc => hword c (List.mem_reverse.mp hc)⟩
  | cons c cs ih =>
    rw [wordsFrom_cons] at hw
    by_cases hc : isBlank c = true
    · rw [if_pos hc] at hw
      split at hw
      · exact ih (List.forall_mem_nil _) hw
      · next hne =>
        rcases List.mem_cons.mp hw with rfl | hw
        · exact ⟨by simpa using hne, fun b hb => hword b (List.mem_reverse.mp hb)⟩
        · exact ih (List.forall_mem_nil _) hw
    · rw [if_neg hc] at hw
      exact ih (List.forall_mem_cons.mpr ⟨by simpa using hc, hword⟩) hw

theorem isWord_of_mem_wordsOf {text w : String} (h : w ∈ wordsOf text) : IsWord w := by
  obtain ⟨cs, hcs, rfl⟩ := List.mem_map.mp h
  obtain ⟨hne, hblank⟩ := mem_wordsFrom (List.forall_mem_nil _) hcs
  refine ⟨fun hempty => hne ?_, by simpa using hblank⟩
  simpa using congrArg String.toList hempty

theorem IsWord.wordsOf_eq {w : String} (h : IsWord w) : wordsOf w = [w] := by
  have hne : w.toList ≠ [] := fun hnil => h.1 (String.toList_inj.mp hnil)
  rw [Text.wordsOf_eq, pieces, List.splitOnP_eq_singleton h.2]
  simp [hne]

theorem wordsOf_append_blank (front rest : String) :
    wordsOf (front ++ " " ++ rest) = wordsOf front ++ wordsOf rest := by
  have hsplit : (front ++ " " ++ rest).toList = front.toList ++ ' ' :: rest.toList := by simp
  have hblank : isBlank ' ' = true := by decide
  rw [wordsOf_eq, hsplit, pieces, List.splitOnP_append_cons _ _ hblank, List.filter_append,
    List.map_append, ← pieces, ← pieces, ← wordsOf_eq, ← wordsOf_eq]

/-- The induction is over the words that are put behind the line. -/
theorem wordsOf_line {front : String} {rest : List String} (hrest : ∀ w ∈ rest, IsWord w) :
    wordsOf (rest.foldl (fun line w => line ++ " " ++ w) front) = wordsOf front ++ rest := by
  induction rest generalizing front with
  | nil => rw [List.foldl_nil, List.append_nil]
  | cons w rest ih =>
    obtain ⟨hw, hrest⟩ := List.forall_mem_cons.mp hrest
    rw [List.foldl_cons, ih hrest, wordsOf_append_blank, hw.wordsOf_eq, List.append_assoc,
      List.singleton_append]

end LanguageClient.Text
