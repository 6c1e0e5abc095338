import Mathlib.Data.List.Induction
import Mathlib.Data.List.Nodup
import LanguageClient.Document.Event

/-!
# What the routing of document events amounts to

A session keeps the texts of the URIs of its open documents, and decides about every event by that
set. Seen from outside there is no such set: there are only the events and what was decided about
them, a `History`. `History.HasOpen` says in these terms that a document is open, `Tracks` that a set
of open documents is what a history makes of it, and `Tracks.offer` that it stays so with every event
that is offered; the decision is then a matter of the history (`History.Warrants`).

The server has no more than the events that were forwarded. `Understood` says that a reader who
begins without open documents finds the document of every change and of every closing open.
-/

namespace LanguageClient

namespace DocumentEvent

def subject : DocumentEvent → String
  | .didOpen uri _ _ _ | .didChange uri _ _ | .didClose uri => uri.text

def opens : DocumentEvent → Bool
  | .didOpen .. => true
  | _ => false

def closes : DocumentEvent → Bool
  | .didClose .. => true
  | _ => false

end DocumentEvent

/-- The events that were offered and what was decided about them, the oldest first. -/
abbrev History := List (DocumentEvent × Routed)

namespace History

variable {history : History} {e : DocumentEvent} {r : Routed} {uri : String}

/-- An opening of the document was forwarded, and no closing of it has been forwarded since. -/
def HasOpen (history : History) (uri : String) : Prop :=
  ∃ before opening after, history = before ++ (opening, .forwarded) :: after ∧
    opening.opens = true ∧ opening.subject = uri ∧
    ∀ closing : DocumentEvent, closing.closes = true → closing.subject = uri →
      (closing, Routed.forwarded) ∉ after

theorem not_hasOpen_nil : ¬ HasOpen [] uri := by
  rintro ⟨before, opening, after, heq, -⟩
  cases before <;> cases heq

theorem hasOpen_snoc : HasOpen (history ++ [(e, r)]) uri ↔
    r = .forwarded ∧ e.opens = true ∧ e.subject = uri ∨
      history.HasOpen uri ∧ ¬ (r = .forwarded ∧ e.closes = true ∧ e.subject = uri) := by
  constructor
  · rintro ⟨before, opening, after, heq, hopens, hsubject, hsince⟩
    rcases List.eq_nil_or_concat after with rfl | ⟨after, last, rfl⟩
    · obtain ⟨rfl, hlast⟩ := List.append_inj' heq rfl
      obtain ⟨rfl, rfl⟩ := Prod.mk.inj (List.singleton_inj.mp hlast)
      exact .inl ⟨rfl, hopens, hsubject⟩
    · rw [List.concat_eq_append] at heq hsince
      rw [← List.cons_append, ← List.append_assoc] at heq
      obtain ⟨rfl, hlast⟩ := List.append_inj' heq rfl
      obtain rfl := List.singleton_inj.mp hlast
      refine .inr ⟨⟨before, opening, after, rfl, hopens, hsubject, ?_⟩, ?_⟩
      · intro closing hcloses hof hmem
        exact hsince closing hcloses hof (List.mem_append_left _ hmem)
      · rintro ⟨rfl, hcloses, hof⟩
        exact hsince e hcloses hof (List.mem_append_right _ (List.mem_singleton_self _))
  · rintro (⟨rfl, hopens, hsubject⟩ | ⟨⟨before, opening, after, rfl, hopens, hsubject, hsince⟩, hnot⟩)
    · exact ⟨history, e, [], rfl, hopens, hsubject, fun _ _ _ => List.not_mem_nil⟩
    · refine ⟨before, opening, after ++ [(e, r)], List.append_assoc .., hopens, hsubject, ?_⟩
      intro closing hcloses hof hmem
      rcases List.mem_append.mp hmem with hmem | hmem
      · exact hsince closing hcloses hof hmem
      · obtain ⟨rfl, rfl⟩ := Prod.mk.inj (List.mem_singleton.mp hmem)
        exact hnot ⟨rfl, hcloses, hof⟩

/-- An event is to be forwarded: an opening if the filter matches its document, anything else if the
document is open. -/
def Warrants (filter : DocumentFilter) (history : History) : DocumentEvent → Prop
  | .didOpen uri languageId _ _ =>
    (∃ scheme, uri.scheme = some scheme ∧
      Text.lower scheme.toList = Text.lower filter.scheme.toList) ∧ languageId = filter.language
  | .didChange uri _ _ | .didClose uri => history.HasOpen uri.text

def forwarded (history : History) : List DocumentEvent :=
  (history.filter (·.2 = .forwarded)).map (·.1)

theorem forwarded_snoc : forwarded (history ++ [(e, r)]) =
    history.forwarded ++ if r = .forwarded then [e] else [] := by
  rw [forwarded, List.filter_append, List.map_append]
  congr 1
  cases r <;> rfl

end History

theorem DocumentFilter.matchesDocument_iff (f : DocumentFilter) (uri : Uri) (languageId : String) :
    f.matchesDocument uri languageId = true ↔
      (∃ scheme, uri.scheme = some scheme ∧
        Text.lower scheme.toList = Text.lower f.scheme.toList) ∧ languageId = f.language := by
  rw [matchesDocument, Bool.and_eq_true, beq_iff_eq, matchesScheme, Option.any_eq_true_iff_get]
  cases uri.scheme with
  | none => simp
  | some scheme => simp [Text.eqIgnoringCase, Text.sameIgnoringCase]

namespace OpenDocuments

variable {d : OpenDocuments} {filter : DocumentFilter} {history : History} {uri : String}

theorem isOpen_iff {u : Uri} : d.isOpen u = true ↔ u.text ∈ d.uris := List.contains_iff_mem

/-- The open documents are those that a history leaves open. -/
structure Tracks (d : OpenDocuments) (history : History) : Prop where
  nodup : d.uris.Nodup
  open_iff : ∀ uri, uri ∈ d.uris ↔ history.HasOpen uri

theorem tracks_nil : Tracks {} [] :=
  ⟨List.nodup_nil, fun _ => ⟨fun h => (List.not_mem_nil h).elim, fun h => (History.not_hasOpen_nil h).elim⟩⟩

theorem Tracks.forwards (h : d.Tracks history) (filter : DocumentFilter) (e : DocumentEvent) :
    (d.offer filter e).1 = .forwarded ↔ history.Warrants filter e := by
  cases e with
  | didOpen uri languageId version text =>
    rw [History.Warrants, ← DocumentFilter.matchesDocument_iff, offer]
    split <;> simp_all
  | didChange uri version changes | didClose uri =>
    rw [History.Warrants, ← h.open_iff, ← isOpen_iff, offer]
    split <;> simp_all

theorem mem_offer (hnodup : d.uris.Nodup) (e : DocumentEvent) :
    uri ∈ (d.offer filter e).2.uris ↔
      (d.offer filter e).1 = .forwarded ∧ e.opens = true ∧ e.subject = uri ∨
        uri ∈ d.uris ∧
          ¬ ((d.offer filter e).1 = .forwarded ∧ e.closes = true ∧ e.subject = uri) := by
  cases e with
  | didOpen u languageId version text =>
    rw [offer]
    split
    · split
      · next hopen =>
        have hmem := isOpen_iff.mp hopen
        simp only [DocumentEvent.opens, DocumentEvent.closes, DocumentEvent.subject, true_and]
        grind
      · simp [DocumentEvent.opens, DocumentEvent.closes, DocumentEvent.subject, eq_comm]
    · simp
  | didChange u version changes => simp [offer, DocumentEvent.opens, DocumentEvent.closes]
  | didClose u =>
    rw [offer]
    split
    · simp [hnodup.mem_erase_iff, DocumentEvent.opens, DocumentEvent.closes, DocumentEvent.subject,
        and_comm, eq_comm]
    · simp

theorem nodup_offer (hnodup : d.uris.Nodup) (e : DocumentEvent) :
    (d.offer filter e).2.uris.Nodup := by
  cases e with
  | didOpen u languageId version text =>
    rw [offer]
    split
    · split
      · exact hnodup
      · next hopen => exact List.nodup_cons.mpr ⟨fun hmem => hopen (isOpen_iff.mpr hmem), hnodup⟩
    · exact hnodup
  | didChange u version changes => exact hnodup
  | didClose u =>
    rw [offer]
    split
    · exact hnodup.erase _
    · exact hnodup

theorem Tracks.offer (h : d.Tracks history) (filter : DocumentFilter) (e : DocumentEvent) :
    (d.offer filter e).2.Tracks (history ++ [(e, (d.offer filter e).1)]) :=
  ⟨nodup_offer h.nodup e, fun uri => by rw [mem_offer h.nodup, h.open_iff, History.hasOpen_snoc]⟩

theorem offer_of_ignored {e : DocumentEvent} (h : (d.offer filter e).1 = .ignored) :
    (d.offer filter e).2 = d := by
  cases e with
  | didOpen u languageId version text | didClose u =>
    rw [OpenDocuments.offer] at h ⊢
    split at h
    · cases h
    · next hnot => rw [if_neg hnot]
  | didChange u version changes => rfl

/-- An event that is forwarded leaves the set as it is if it is a change, or opens a document that is
open already, and in no other case. -/
theorem offer_eq_self_iff {e : DocumentEvent} (h : (d.offer filter e).1 = .forwarded) :
    (d.offer filter e).2 = d ↔
      e.opens = false ∧ e.closes = false ∨ e.opens = true ∧ e.subject ∈ d.uris := by
  cases e with
  | didOpen u languageId version text =>
    rw [OpenDocuments.offer] at h ⊢
    split at h
    · next hmatches =>
      rw [if_pos hmatches]
      simp only [DocumentEvent.opens, DocumentEvent.closes, DocumentEvent.subject]
      by_cases hopen : d.isOpen u = true
      · simp [hopen, isOpen_iff.mp hopen]
      · have hlonger : (⟨u.text :: d.uris⟩ : OpenDocuments) ≠ d := fun heq => by
          have huris := congrArg (·.uris.length) heq
          simp at huris
        simp [hopen, hlonger, mt isOpen_iff.mpr hopen]
    · cases h
  | didChange u version changes => simp [OpenDocuments.offer, DocumentEvent.opens, DocumentEvent.closes]
  | didClose u =>
    rw [OpenDocuments.offer] at h ⊢
    split at h
    · next hopen =>
      rw [if_pos hopen]
      have hshorter : (⟨d.uris.erase u.text⟩ : OpenDocuments) ≠ d := fun heq => by
        have hlength := List.length_erase_of_mem (isOpen_iff.mp hopen)
        have huris := congrArg (·.uris.length) heq
        have hpos := List.length_pos_of_mem (isOpen_iff.mp hopen)
        simp only at huris
        omega
      simp [hshorter, DocumentEvent.opens, DocumentEvent.closes]
    · cases h

end OpenDocuments

/-! ## What the server makes of it -/

/-- The documents that are open to whoever has read some events. -/
def held (told : List DocumentEvent) : List String :=
  told.foldl (fun uris e =>
    if e.opens then e.subject :: uris
    else if e.closes then uris.filter (· ≠ e.subject)
    else uris) []

/-- Whoever reads the events finds the document of every change and of every closing open. -/
def Understood (told : List DocumentEvent) : Prop :=
  ∀ before e after, told = before ++ e :: after → e.opens = false → e.subject ∈ held before

namespace History

variable {filter : DocumentFilter} {history : History} {e : DocumentEvent} {r : Routed} {uri : String}

/-- All that was decided is what the events before warranted. -/
def Decided (filter : DocumentFilter) (history : History) : Prop :=
  ∀ before e r after, history = before ++ (e, r) :: after →
    (r = .forwarded ↔ History.Warrants filter before e)

theorem decided_nil : Decided filter [] := fun before _ _ _ heq => by
  cases before <;> cases heq

theorem decided_snoc : Decided filter (history ++ [(e, r)]) ↔
    Decided filter history ∧ (r = .forwarded ↔ history.Warrants filter e) := by
  constructor
  · intro h
    refine ⟨fun before e' r' after heq => ?_, h history e r [] rfl⟩
    refine h before e' r' (after ++ [(e, r)]) ?_
    rw [heq, List.append_assoc, List.cons_append]
  · rintro ⟨h, hlast⟩ before e' r' after heq
    rcases List.eq_nil_or_concat after with rfl | ⟨after, last, rfl⟩
    · obtain ⟨rfl, hsame⟩ := List.append_inj' heq rfl
      obtain ⟨rfl, rfl⟩ := Prod.mk.inj (List.singleton_inj.mp hsame)
      exact hlast
    · rw [List.concat_eq_append, ← List.cons_append, ← List.append_assoc] at heq
      obtain ⟨hhistory, -⟩ := List.append_inj' heq rfl
      exact h before e' r' after hhistory

/-- To the server the documents are open that the history leaves open. -/
theorem mem_held : uri ∈ held history.forwarded ↔ history.HasOpen uri := by
  induction history using List.reverseRecOn with
  | nil => exact ⟨fun h => (List.not_mem_nil h).elim, fun h => (not_hasOpen_nil h).elim⟩
  | append_singleton history last ih =>
    obtain ⟨e, r⟩ := last
    rw [forwarded_snoc, hasOpen_snoc, ← ih]
    cases r with
    | ignored => simp
    | forwarded =>
      rw [if_pos rfl, held, List.foldl_append, List.foldl_cons, List.foldl_nil, ← held]
      rw [← @eq_comm _ uri e.subject]
      cases e <;> simp [DocumentEvent.opens, DocumentEvent.closes]

theorem understood_snoc {told : List DocumentEvent} (h : Understood told)
    (hlast : e.opens = false → e.subject ∈ held told) : Understood (told ++ [e]) := by
  intro before e' after heq hopens
  rcases List.eq_nil_or_concat after with rfl | ⟨after, last, rfl⟩
  · obtain ⟨rfl, hsame⟩ := List.append_inj' heq rfl
    obtain rfl := List.singleton_inj.mp hsame
    exact hlast hopens
  · rw [List.concat_eq_append, ← List.cons_append, ← List.append_assoc] at heq
    obtain ⟨htold, -⟩ := List.append_inj' heq rfl
    exact h before e' after htold hopens

theorem Decided.understood (h : Decided filter history) : Understood history.forwarded := by
  induction history using List.reverseRecOn with
  | nil => exact fun before _ _ heq => by cases before <;> cases heq
  | append_singleton history last ih =>
    obtain ⟨e, r⟩ := last
    obtain ⟨hearlier, hlast⟩ := decided_snoc.mp h
    rw [forwarded_snoc]
    split
    · next hforwarded =>
      refine understood_snoc (ih hearlier) fun hopens => mem_held.mpr ?_
      have hwarrants := hlast.mp hforwarded
      cases e with
      | didOpen => cases hopens
      | didChange => exact hwarrants
      | didClose => exact hwarrants
    · rw [List.append_nil]
      exact ih hearlier

end History

end LanguageClient
