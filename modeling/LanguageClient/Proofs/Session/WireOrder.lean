import LanguageClient.Proofs.Session.Script

/-!
# The order of the frames on the wire

In a run in which the writer is had in the order of requests (`InTurn`) and no message of the session's
own fails to be written or is broken off (`Unbroken`), the frames that the client itself originates come
in one order: the request for the server's introduction, its confirmation, the traffic of users, the
request that the server shut down, and the message that the client leaves. `Scripted` collects what
holds at every moment of such a run, and `wire_order` reads the order off the line.
-/

namespace LanguageClient

/-! ## Lists in order

A list of parts that is sorted, and whose own parts are a beginning of the script, is a beginning of
the whole course. That is a fact about lists. -/

namespace Part

variable {T : List Part} {k : Nat}

/-- A list in order is made of what comes before the traffic, the traffic, and what comes behind
it. -/
theorem eq_append_of_sorted (h : T.Pairwise Before) :
    T = T.filter (·.rank < 2) ++ T.filter (· == .traffic) ++ T.filter (2 < ·.rank) := by
  induction T with
  | nil => rfl
  | cons a T ih =>
    obtain ⟨hbefore, hrest⟩ := List.pairwise_cons.mp h
    have hsplit := ih hrest
    have hearly : 2 ≤ a.rank → T.filter (·.rank < 2) = [] := by
      intro hrank
      refine List.filter_eq_nil_iff.mpr fun b hb => ?_
      rcases hbefore b hb with hlt | ⟨-, rfl⟩
      · simp only [decide_eq_true_eq]
        omega
      · decide
    have hmiddle : 2 < a.rank → T.filter (· == .traffic) = [] := by
      intro hrank
      refine List.filter_eq_nil_iff.mpr fun b hb htraffic => ?_
      obtain rfl := eq_of_beq htraffic
      rcases hbefore _ hb with hlt | ⟨rfl, -⟩
      · exact Nat.lt_asymm hrank hlt
      · exact Nat.lt_irrefl _ hrank
    have hbehind : 2 < a.rank → T = T.filter (2 < ·.rank) := by
      intro hrank
      rwa [hearly (Nat.le_of_lt hrank), hmiddle hrank] at hsplit
    cases a with
    | opening => exact congrArg (List.cons Part.opening) hsplit
    | opened => exact congrArg (List.cons Part.opened) hsplit
    | traffic =>
      rw [hearly (Nat.le_refl 2)] at hsplit
      show _ = T.filter (·.rank < 2) ++ .traffic :: T.filter (· == .traffic) ++ T.filter (2 < ·.rank)
      rw [hearly (Nat.le_refl 2)]
      exact congrArg (List.cons Part.traffic) hsplit
    | leaving =>
      show _ = T.filter (·.rank < 2) ++ T.filter (· == .traffic) ++ .leaving :: T.filter (2 < ·.rank)
      rw [hearly (by decide), hmiddle (by decide), ← hbehind (by decide)]
      rfl
    | left =>
      show _ = T.filter (·.rank < 2) ++ T.filter (· == .traffic) ++ .left :: T.filter (2 < ·.rank)
      rw [hearly (by decide), hmiddle (by decide), ← hbehind (by decide)]
      rfl

/-- The handshake, and `k` frames of traffic. -/
def stay (k : Nat) : List Part := [.opening, .opened] ++ List.replicate k .traffic

def course (k : Nat) : List Part := stay k ++ [.leaving, .left]

theorem prefix_course (hsorted : T.Pairwise Before) (hown : T.filter isOwn <+: script)
    (htraffic : .traffic ∈ T → [.opening, .opened] <+: T.filter isOwn) : ∃ k, T <+: course k := by
  by_cases hmem : .traffic ∈ T
  · -- What comes before the traffic and what comes behind it make up what has been said of the script.
    obtain ⟨rest, hrest⟩ := htraffic hmem
    have hleave : rest <+: [.leaving, .left] := by
      rw [← hrest] at hown
      exact (List.prefix_append_right_inj _).mp hown
    have hrank : ∀ a ∈ rest, 2 < a.rank := by
      intro a ha
      rcases List.mem_pair.mp (hleave.subset ha) with rfl | rfl <;> decide
    have hearly : T.filter (·.rank < 2) = [.opening, .opened] := by
      have hpart : T.filter (·.rank < 2) = (T.filter isOwn).filter (·.rank < 2) := by
        rw [List.filter_filter]
        refine List.filter_congr fun a _ => ?_
        cases a <;> rfl
      have hnone : rest.filter (·.rank < 2) = [] := by
        refine List.filter_eq_nil_iff.mpr fun a ha hlt => ?_
        exact Nat.lt_asymm (hrank a ha) (of_decide_eq_true hlt)
      rw [hpart, ← hrest, List.filter_append, hnone]
      rfl
    have hlate : T.filter (2 < ·.rank) = rest := by
      have hpart : T.filter (2 < ·.rank) = (T.filter isOwn).filter (2 < ·.rank) := by
        rw [List.filter_filter]
        refine List.filter_congr fun a _ => ?_
        cases a <;> rfl
      have hall : rest.filter (2 < ·.rank) = rest :=
        List.filter_eq_self.mpr fun a ha => decide_eq_true (hrank a ha)
      rw [hpart, ← hrest, List.filter_append, hall]
      rfl
    obtain ⟨k, hT⟩ : ∃ k, T = stay k ++ rest := by
      have hsplit := eq_append_of_sorted hsorted
      rw [List.filter_beq, hearly, hlate] at hsplit
      exact ⟨T.count Part.traffic, hsplit⟩
    refine ⟨k, ?_⟩
    rw [hT]
    exact (List.prefix_append_right_inj _).mpr hleave
  · have hall : T.filter isOwn = T := by
      refine List.filter_eq_self.mpr fun a ha => ?_
      cases a with
      | traffic => exact absurd ha hmem
      | _ => rfl
    exact ⟨0, hall ▸ hown⟩

theorem prefix_course_iff :
    T <+: course k ↔ T = course k ∨ T = stay k ++ [Part.leaving] ∨ T <+: stay k := by
  have hcourse : course k = (stay k ++ [Part.leaving]) ++ [Part.left] := by
    rw [List.append_assoc]
    rfl
  rw [hcourse, List.prefix_concat_iff, List.prefix_concat_iff]

theorem not_mem_stay {a : Part} (h : 2 < a.rank) (k : Nat) : a ∉ stay k := by
  cases a with
  | leaving => simp [stay]
  | left => simp [stay]
  | _ => cases h <;> contradiction

theorem eq_course (h : T <+: course k) (hleft : .left ∈ T) :
    T = course k := by
  rcases prefix_course_iff.mp h with heq | heq | hstay
  · exact heq
  · rw [heq] at hleft
    rcases List.mem_append.mp hleft with hmem | hmem
    · exact absurd hmem (not_mem_stay (by decide) k)
    · cases List.mem_singleton.mp hmem
  · exact absurd (hstay.subset hleft) (not_mem_stay (by decide) k)

theorem eq_stay (h : T <+: course k) (hleaving : .leaving ∉ T) (hopened : [.opening, .opened] <+: T) :
    ∃ j, T = stay j := by
  have hstay : T <+: stay k := by
    rcases prefix_course_iff.mp h with rfl | rfl | hstay
    · exact absurd (List.mem_append_right _ (List.mem_cons_self ..)) hleaving
    · exact absurd (List.mem_append_right _ (List.mem_singleton_self _)) hleaving
    · exact hstay
  obtain ⟨rest, rfl⟩ := hopened
  have hrest := (List.prefix_append_right_inj _).mp hstay
  exact ⟨rest.length, congrArg _ (List.prefix_replicate_iff.mp hrest).2⟩

theorem opened_prefix (h : T <+: course k) (hopened : .opened ∈ T) :
    [.opening, .opened] <+: T := by
  have hcourse : [.opening, .opened] <+: course k :=
    (List.prefix_append _ _).trans (List.prefix_append _ _)
  rcases List.prefix_or_prefix_of_prefix hcourse h with hle | hle
  · exact hle
  · have hle' : T <+: [Part.opening] ++ [Part.opened] := hle
    rcases List.prefix_concat_iff.mp hle' with rfl | hle'
    · exact List.prefix_rfl
    · exact absurd (hle'.subset hopened) (by decide)

end Part

theorem Stage.working_of_place {stage : Stage} {x : Part × Option Nat} (h : stage.place = some x) :
    ∃ work deadline purpose, stage = .working work deadline purpose := by
  cases stage with
  | working work deadline purpose => exact ⟨work, deadline, purpose, rfl⟩
  | _ => cases h

namespace Session

/-! ## Who is in line

The line has frames that are not on the wire yet. In the last phases there are none, so what holds
of the line holds of the wire. -/

section Line

variable {looked : List Bool} {c : Phase} {h : View} {L : List Dispatch}

theorem own_eq_filter (line : List (Part × Option Nat)) :
    own line = (line.map Prod.fst).filter Part.isOwn := by
  rw [own, List.filter_map]
  rfl

theorem Ordered.place {t : Task} {part : Part} {id : Option Nat} (ho : Ordered c h)
    (hplace : h.place t = some (part, id)) :
    part.isOwn = true ∧ (c = .starting ∨ c = .stopping ∧ 2 < part.rank) ∨
      part.isOwn = false ∧ c.introduced = true := by
  cases t with
  | call n =>
    obtain ⟨stage, hn, hplace⟩ := Option.bind_eq_some_iff.mp hplace
    obtain ⟨work, deadline, purpose, rfl⟩ := Stage.working_of_place hplace
    obtain rfl := Stage.part_of_place hplace
    cases hown : purpose.part.isOwn with
    | true => exact .inl ⟨rfl, ho.speaks hn hown⟩
    | false => exact .inr ⟨rfl, (ho.traffic hn hown).2⟩
  | _ => cases hplace

theorem Ordered.written {a : Part} (ho : Ordered c h) (ha : a ∈ own (h.line L))
    (hc : c ≠ .starting) (hrank : c = .stopping → a.rank ≤ 2) :
    a ∈ (L.filterMap Dispatch.place).map Prod.fst := by
  obtain ⟨hown, id, hmem⟩ := mem_own.mp ha
  rcases List.mem_append.mp hmem with hmem | hmem
  · exact List.mem_map.mpr ⟨(a, id), hmem, rfl⟩
  · obtain ⟨t, -, hplace⟩ := List.mem_filterMap.mp hmem
    rcases ho.place hplace with ⟨-, hstarting | ⟨hstopping, hlt⟩⟩ | ⟨htraffic, -⟩
    · exact absurd hstarting hc
    · exact absurd hlt (Nat.not_lt.mpr (hrank hstopping))
    · cases hown.symm.trans htraffic

theorem mem_own_of_written {a : Part} (hown : a.isOwn = true)
    (ha : a ∈ (L.filterMap Dispatch.place).map Prod.fst) : a ∈ own (h.line L) := by
  obtain ⟨⟨b, id⟩, hmem, rfl⟩ := List.mem_map.mp ha
  exact mem_own.mpr ⟨hown, id, List.mem_append_left _ hmem⟩

theorem Spoken.prefix_course {line : List (Part × Option Nat)} (hs : Spoken looked line c)
    (hopened : c.introduced = true → [.opening, .opened] <+: own line) :
    ∃ k, line.map Prod.fst <+: Part.course k := by
  refine Part.prefix_course hs.sorted (own_eq_filter line ▸ hs.part) fun hmem => ?_
  obtain ⟨⟨a, id⟩, hmem, rfl⟩ := List.mem_map.mp hmem
  rw [← own_eq_filter]
  exact hopened (hs.traffic id hmem)

theorem Phase.Said.opened {own : List Part} (hs : c.Said looked own) (hc : c.introduced = true) :
    [.opening, .opened] <+: own := by
  cases c with
  | running => exact hs.2 ▸ List.prefix_rfl
  | stopping => exact hs
  | stopped =>
    rcases hs with ⟨-, rfl⟩ | ⟨-, rfl⟩
    · exact List.prefix_rfl
    · exact List.prefix_append [Part.opening, .opened] [.leaving, .left]
  | _ => cases hc

theorem Ordered.line_of_failed (ho : Ordered .failed h) : h.line L = L.filterMap Dispatch.place := by
  have hnobody : h.queue.filterMap h.place = [] := by
    refine List.filterMap_eq_nil_iff.mpr fun t _ => ?_
    cases hplace : h.place t with
    | none => rfl
    | some x =>
      rcases ho.place hplace with ⟨-, hc | ⟨hc, -⟩⟩ | ⟨-, hc⟩ <;> cases hc
  rw [View.line, hnobody, List.append_nil]

end Line

/-! ## Runs -/

/-- The writer is had in the order of requests: whoever asks for it leaves nobody behind whose request
came before. -/
def InTurn (s : Session) (e : Event) : Prop := s.view.InTurn e

/-- A run in which calls take turns: as long as one is on its way to the writer, no other call does
anything, and its turn is over when it is blocked. Whatever is not done by a call can happen at any
time. -/
inductive TakesTurns : Session → List Event → Prop where
  | done {s : Session} : TakesTurns s []
  | turn {s : Session} {n : Nat} {events rest : List Event}
      (halone : ∀ e ∈ events, ∀ m, m ≠ n → e.isOf (.call m) = false)
      (hblocked : ∀ stage, (s.run events).stageOf n = some stage → stage.goesOn = false)
      (hrest : TakesTurns (s.run events) rest) : TakesTurns s (events ++ rest)

/-- Nobody is on its way but call `n`, if anybody is. The handshake counts once it has begun. -/
def Alone (s : Session) (n : Nat) : Prop :=
  ∀ m stage, s.stageOf m = some stage → stage.goesOn = true → m = n ∨ stage = .fresh .opening

/-- Nobody is sooner than whoever is alone on its way. -/
theorem Alone.inTurn {s : Session} {n : Nat} {e : Event} (h : s.Alone n)
    (halone : ∀ m, m ≠ n → e.isOf (.call m) = false) : s.InTurn e := by
  rintro n' a ha rfl - m b hb hsooner
  obtain rfl : n' = n := by
    by_contra hne
    cases (halone n' hne).symm.trans (beq_self_eq_true (Task.call n'))
  have hgoes : b.goesOn = true := by
    rcases hsooner with ⟨i, hi, -⟩ | ⟨⟨hgoes, -⟩, -⟩
    · exact Stage.goesOn_of_number hi
    · exact hgoes
  rcases h m b hb hgoes with rfl | rfl
  · obtain rfl := Option.some.inj (ha.symm.trans hb)
    rcases hsooner with ⟨i, hi, j, hj, hlt⟩ | ⟨⟨-, hrole⟩, hfarewell⟩
    · cases hi.symm.trans hj
      exact Nat.lt_irrefl i hlt
    · cases (Stage.role_of_isFarewell hfarewell).symm.trans hrole
  · rcases hsooner with ⟨i, hi, -⟩ | ⟨⟨-, hrole⟩, -⟩
    · cases hi
    · cases hrole

theorem Alone.apply {s : Session} {n : Nat} {e : Event} (h : s.Alone n)
    (halone : ∀ m, m ≠ n → e.isOf (.call m) = false) : (s.apply e).Alone n := by
  intro m stage hm hgoes
  by_cases hne : m = n
  · exact .inl hne
  · exact h m stage ((apply_change s e).stageOf (halone m hne) ▸ hm) hgoes

theorem TakesTurns.throughout {s : Session} {events : List Event} (h : TakesTurns s events)
    (hnobody : ∀ n, s.Alone n) : Throughout InTurn s events := by
  induction h with
  | done => trivial
  | @turn s n events rest halone hblocked hrest ih =>
    have hturn := hnobody n
    clear hnobody
    induction events generalizing s with
    | nil =>
      refine ih fun k m stage hm hgoes => .inr ((hturn m stage hm hgoes).resolve_left ?_)
      rintro rfl
      exact Bool.false_ne_true ((hblocked stage hm).symm.trans hgoes)
    | cons e events ihevents =>
      obtain ⟨he, halone⟩ := List.forall_mem_cons.mp halone
      exact ⟨hturn.inTurn he, ihevents halone hblocked hrest ih (hturn.apply he)⟩

/-- Where calls take turns, the writer is had in the order of requests: a schedule that lets every
call go on until it is blocked is one of those that the order on the wire is stated for. -/
theorem TakesTurns.inTurn {settings : SessionSettings} {filter : DocumentFilter} {label : String}
    {processId now : Nat} {events : List Event}
    (h : TakesTurns (start settings filter label processId now) events) :
    Throughout InTurn (start settings filter label processId now) events :=
  h.throughout fun _ _ _ hm _ => .inr (stageOf_start_eq_some hm).2

/-- No message of the session's own fails to be written or is broken off. -/
def Unbroken (s : Session) (e : Event) : Prop :=
  s.view.Unbroken (s.posted e) (s.apply e).view

/-- What a run finds out about the server for calls that have drained the session. -/
def looks (s : Session) : List Event → List Bool
  | [] => []
  | e :: events => s.view.look e (s.apply e).view ++ (s.apply e).looks events

/-- A session that has kept to the script, given its record, its frames and what has been found out
about the server. -/
structure Scripted (hs : List Happening) (out : List Dispatch) (looked : List Bool) (c : Phase)
    (s : Session) : Prop where
  governed : Governed c s
  chronicled : Chronicled hs out s
  heads : s.view.Heads
  aligned : Aligned looked (s.view.line out) c s.view
  counted : s.view.Counted (s.view.line out)

section Runs

variable {hs : List Happening} {out : List Dispatch} {looked : List Bool} {c : Phase} {s : Session}
  {e : Event} {events : List Event}

theorem Scripted.first (h : Scripted hs out looked c s) (n : Nat) (id : Option Nat)
    (payload : List UInt8) (deadline : Option Nat)
    (hn : s.view.stage n = some (.working (.carrying id (.fresh payload)) deadline .introduce)) :
    id = some 1 := by
  obtain ⟨rfl, -⟩ := Phase.Fits.opens (h.governed.ordered.fits n _ hn)
  have hgreets := h.chronicled.greeted.handshake _ hn
  cases id with
  | none => exact hgreets.elim
  | some id => exact congrArg some hgreets

theorem Scripted.apply (h : Scripted hs out looked c s) (hproper : s.Proper e)
    (hturn : s.InTurn e) (hunbroken : s.Unbroken e) :
    ∃ d, Scripted (hs ++ s.happenings e) (out ++ s.posted e)
      (looked ++ s.view.look e (s.apply e).view) d (s.apply e) := by
  have hcourse := course h.governed.lined e
  have hl := h.governed.lined.inLine h.heads
  obtain ⟨d, ht, hg⟩ := h.governed.apply hproper
  exact ⟨d,
    { governed := hg
      chronicled := h.chronicled.apply h.governed hproper
      heads := h.heads.step hcourse
      aligned := h.aligned.step h.governed.ordered h.chronicled.genuine hl hcourse hturn hunbroken
        hproper ht hg.ordered
      counted := h.counted.step hcourse hl hturn h.first }⟩

theorem Scripted.run (h : Scripted hs out looked c s) (hproper : Throughout Proper s events)
    (hturn : Throughout InTurn s events) (hunbroken : Throughout Unbroken s events) :
    ∃ d, Scripted (hs ++ s.journal events) (out ++ s.dispatches events) (looked ++ s.looks events) d
      (s.run events) := by
  induction events generalizing s c hs out looked with
  | nil =>
    rw [journal, dispatches, looks, List.append_nil, List.append_nil, List.append_nil]
    exact ⟨c, h⟩
  | cons e events ih =>
    obtain ⟨d, h'⟩ := h.apply hproper.1 hturn.1 hunbroken.1
    rw [journal, dispatches, looks, ← List.append_assoc, ← List.append_assoc, ← List.append_assoc]
    exact ih h' hproper.2 hturn.2 hunbroken.2

theorem Scripted.prefix_course (h : Scripted hs out looked c s) :
    ∃ k, (out.filterMap Dispatch.place).map Prod.fst <+: Part.course k := by
  obtain ⟨k, hline⟩ := h.aligned.spoken.prefix_course fun hc => h.aligned.spoken.phase.opened hc
  exact ⟨k, ((List.prefix_append _ _).map Prod.fst).trans hline⟩

theorem Scripted.started (h : Scripted hs out looked c s) (hc : c.introduced = true) :
    [.opening, .opened] <+: (out.filterMap Dispatch.place).map Prod.fst := by
  obtain ⟨k, hprefix⟩ := h.prefix_course
  have hopened : .opened ∈ own (s.view.line out) :=
    (h.aligned.spoken.phase.opened hc).subset (by decide)
  refine Part.opened_prefix hprefix (h.governed.ordered.written hopened ?_ fun _ => by decide)
  rintro rfl
  cases hc

theorem Scripted.failed (h : Scripted hs out looked .failed s) :
    (out.filterMap Dispatch.place).map Prod.fst = [.opening] := by
  have hline := h.governed.ordered.line_of_failed (L := out)
  have hspoken := h.aligned.spoken
  rw [hline] at hspoken
  have hall : ((out.filterMap Dispatch.place).map Prod.fst).filter Part.isOwn =
      (out.filterMap Dispatch.place).map Prod.fst := by
    refine List.filter_eq_self.mpr fun a ha => ?_
    obtain ⟨⟨a, id⟩, hmem, rfl⟩ := List.mem_map.mp ha
    cases a with
    | traffic => cases hspoken.traffic id hmem
    | _ => rfl
  rw [← hall, ← own_eq_filter]
  exact hspoken.phase.2

theorem Scripted.asked (h : Scripted hs out looked c s) {part : Part} {id : Option Nat}
    (hmem : (part, id) ∈ out.filterMap Dispatch.place) (hpart : part = .leaving ∨ part = .left) :
    looked = [false] := by
  have hmem' : part ∈ (out.filterMap Dispatch.place).map Prod.fst := List.mem_map.mpr ⟨_, hmem, rfl⟩
  refine h.aligned.spoken.asked ?_
  rcases hpart with rfl | rfl
  · exact mem_own_of_written rfl hmem'
  · exact Part.leaving_of_left h.aligned.spoken.part (mem_own_of_written rfl hmem')

theorem Scripted.stopped (h : Scripted hs out looked .stopped s) :
    ∃ k, looked = [true] ∧ (out.filterMap Dispatch.place).map Prod.fst = Part.stay k ∨
      looked = [false] ∧ (out.filterMap Dispatch.place).map Prod.fst = Part.course k := by
  obtain ⟨k, hprefix⟩ := h.prefix_course
  rcases h.aligned.spoken.phase with ⟨hlooked, hown⟩ | ⟨hlooked, hown⟩
  · have hleaving : .leaving ∉ (out.filterMap Dispatch.place).map Prod.fst := by
      intro hmem
      have hmem' : .leaving ∈ own (s.view.line out) := mem_own_of_written rfl hmem
      rw [hown] at hmem'
      revert hmem'
      decide
    obtain ⟨j, hstay⟩ := Part.eq_stay hprefix hleaving (h.started rfl)
    exact ⟨j, .inl ⟨hlooked, hstay⟩⟩
  · have hleft : .left ∈ own (s.view.line out) := by
      rw [hown]
      decide
    have hwritten := h.governed.ordered.written hleft (by simp) (by simp)
    exact ⟨k, .inr ⟨hlooked, Part.eq_course hprefix hwritten⟩⟩

end Runs

theorem forall_stageOf {s : Session} {P : Nat → Stage → Prop} :
    (∀ n ∈ s.calls.keys, ∀ stage ∈ s.stageOf n, P n stage) ↔
      ∀ n stage, s.stageOf n = some stage → P n stage := by
  refine ⟨fun h n stage hn => h n ?_ stage hn, fun h n _ stage hn => h n stage hn⟩
  obtain ⟨call, hcall, -⟩ := Option.map_eq_some_iff.mp hn
  exact List.mem_map.mpr ⟨(n, call), Table.mem_of_get? hcall, rfl⟩

instance {s : Session} {P : Nat → Stage → Prop} [∀ n stage, Decidable (P n stage)] :
    Decidable (∀ n stage, s.stageOf n = some stage → P n stage) :=
  decidable_of_iff _ forall_stageOf

instance (e : Event) (t : Task) : Decidable (e = .step t) :=
  match e with
  | .step u => decidable_of_iff (u = t) ⟨congrArg Event.step, Event.step.inj⟩
  | .call .. | .accept .. | .refuse .. | .arrive .. | .endStream .. | .pass .. | .drop ..
  | .takeNotices | .fetchNotices | .discardNotices => .isFalse nofun

instance (a b : Stage) : Decidable (a.Sooner b) :=
  inferInstanceAs (Decidable (_ ∨ _))

instance (s : Session) (e : Event) : Decidable (s.InTurn e) :=
  inferInstanceAs (Decidable (∀ n a, s.stageOf n = some a → e = .step (.call n) →
    a.knocks = true → ∀ m b, s.stageOf m = some b → ¬ b.Sooner a))

instance (s : Session) (e : Event) : Decidable (s.Unbroken e) :=
  decidable_of_iff
    (∀ n stage, s.stageOf n = some stage → ∀ part ∈ stage.sends,
      (∃ next ∈ (s.apply e).stageOf n, next.sends = some part) ∨ ∃ d ∈ s.posted e, d.task = .call n)
    ⟨fun h n stage part hn hsends => h n stage hn part hsends,
      fun h n stage hn part hsends => h n stage part hn hsends⟩

end Session

end LanguageClient
