import LanguageClient.Proofs.Session.QueueOrder
import LanguageClient.Proofs.Session.Stop

/-!
# What a session says on its own account

A session says four things on its own account, in this order (`Part.script`): it asks for the server's
introduction, confirms it, asks the server to shut down, and says that it leaves. The traffic of users
comes between the second and the third. `Stage.Said` tells from the stage of the call that opens or
closes the session how much of the script has been said, `Spoken` says how the line looks, and
`Aligned.step` that every event keeps them together, as long as the writer is had in the order of
requests (`View.InTurn`) and no message of the session's own is given up (`View.Unbroken`).
-/

namespace LanguageClient

namespace Part

def rank : Part → Nat
  | .opening => 0
  | .opened => 1
  | .traffic => 2
  | .leaving => 3
  | .left => 4

def isOwn : Part → Bool
  | .traffic => false
  | _ => true

def Before (a b : Part) : Prop := a.rank < b.rank ∨ a = .traffic ∧ b = .traffic

def script : List Part := [.opening, .opened, .leaving, .left]

/-- How much of the script has been said before a part is its turn. -/
def index : Part → Nat
  | .opening => 0
  | .opened => 1
  | .traffic => 2
  | .leaving => 2
  | .left => 3

/-- What has been found by then about the server: the session takes leave of a server that has not
hung up. -/
def looked : Part → List Bool
  | .leaving | .left => [false]
  | _ => []

theorem take_index_append {p : Part} (h : p.isOwn = true) :
    script.take p.index ++ [p] = script.take (p.index + 1) := by
  cases p <;> first | rfl | cases h

theorem leaving_of_left {own : List Part} (h : own <+: script) (hleft : .left ∈ own) :
    .leaving ∈ own := by
  have htake : ∀ k, Part.left ∈ script.take k → Part.leaving ∈ script.take k
    | 0 | 1 | 2 | 3 => by decide
    | k + 4 => by
      intro _
      rw [List.take_of_length_le (by simp [script])]
      decide
  rw [List.prefix_iff_eq_take.mp h] at hleft ⊢
  exact htake _ hleft

theorem rank_of_mem_take {p a : Part} (h : a ∈ script.take p.index) : a.rank < p.rank := by
  revert a
  cases p <;> decide

end Part

/-! ## What a call has said

The stage of the call that opens or closes the session tells how far the script has come. Nobody
else says anything of it, so nothing is asked of other calls. -/

/-- How much of the script has been said, and what has been found about the server, when the call that
opens or closes the session is at this stage. -/
def Stage.Said (looked : List Bool) (own : List Part) : Stage → Prop
  | .fresh .opening => looked = [] ∧ own = []
  | .working work _ purpose => purpose.part.isOwn = true → looked = purpose.part.looked ∧
      own = Part.script.take (if work.goesOn then purpose.part.index else purpose.part.index + 1)
  | .givingUp _ _ => looked = [] ∧ own = [.opening]
  | .draining _ _ _ | .drained _ => looked = [] ∧ own = [.opening, .opened]
  | .ending _ _ => looked = [true] ∧ own = [.opening, .opened] ∨ looked = [false] ∧ own = Part.script
  | _ => True

/-- The message of the session's own that a call is to bring on the wire. -/
def Stage.sends : Stage → Option Part
  | .working (.exchange (.awaiting _)) _ _ => none
  | .working _ _ purpose => if purpose.part.isOwn then some purpose.part else none
  | _ => none

theorem Stage.said_of_user {stage : Stage} (h : stage.role.isPrincipal = false)
    (hstray : stage.role ≠ .stray) (looked : List Bool) (own : List Part) :
    stage.Said looked own := by
  cases stage with
  | fresh ask =>
    cases ask with
    | opening => cases h
    | _ => trivial
  | working work deadline purpose =>
    intro hown
    cases purpose <;> first | cases h | cases hown
  | draining previous deadline wakeAt | drained previous | givingUp closing error =>
    rw [Stage.role] at h hstray
    split at h
    · cases h
    · next hp => exact absurd (if_neg hp) hstray
  | ending closing report => cases h
  | _ => trivial

variable {part : Part} {purpose : Purpose}

theorem Stage.sends_of_place {stage : Stage} {id : Option Nat} (h : stage.place = some (part, id))
    (hown : part.isOwn = true) : stage.sends = some part := by
  unfold Stage.place at h
  split at h
  · obtain ⟨-, -, heq⟩ := Option.map_eq_some_iff.mp h
    obtain ⟨rfl, -⟩ := Prod.mk.inj heq
    exact if_pos hown
  · obtain ⟨-, -, heq⟩ := Option.map_eq_some_iff.mp h
    obtain ⟨rfl, -⟩ := Prod.mk.inj heq
    exact if_pos hown
  · cases h

theorem Stage.part_of_sends {work : Work} {deadline : Option Nat}
    (h : (Stage.working work deadline purpose).sends = some part) : purpose.part = part := by
  unfold Stage.sends at h
  split at h
  · cases h
  · next heq =>
    obtain ⟨-, -, rfl⟩ := Stage.working.inj heq
    split at h
    · exact Option.some.inj h
    · cases h
  · cases h

theorem Stage.Follows.sends {purpose : Purpose} {stage : Stage} (h : Stage.Follows purpose stage) :
    stage.sends ≠ some purpose.part := by
  intro hsends
  cases h <;> cases hsends

theorem Stage.finds_self (hungUp : Bool) (stage : Option Stage) :
    Stage.finds hungUp stage stage = [] := by
  simp [Stage.finds]

theorem Purpose.Asks.own {greeting : Json} {method : String} {params : Option Json}
    (h : purpose.Asks greeting method params) (hown : purpose.part.isOwn = true) :
    purpose = .introduce ∨ purpose = .shutdown := by
  cases purpose with
  | introduce => exact .inl rfl
  | shutdown => exact .inr rfl
  | answer => cases hown
  | _ => exact h.elim

theorem Purpose.Tells.own {notice : Rpc.Notification} (h : purpose.Tells notice)
    (hown : purpose.part.isOwn = true) :
    (∃ introduction, purpose = .confirm introduction) ∨ ∃ report, purpose = .leave report := by
  cases purpose with
  | confirm introduction => exact .inl ⟨introduction, rfl⟩
  | leave report => exact .inr ⟨report, rfl⟩
  | message outcome => cases hown
  | _ => exact h.elim

/-- When a request of the session's own has come to a result, or has taken too long, the next part of
the script is due. -/
theorem Purpose.said_next (h : purpose = .introduce ∨ purpose = .shutdown)
    (reads : Handshake.Decoder) (deadline : Option Nat) (result : Except SessionError Json) :
    (purpose.next reads deadline result).Said purpose.part.looked
        (Part.script.take (purpose.part.index + 1)) ∧
      (purpose.next reads deadline result).role ≠ .visits := by
  rcases h with rfl | rfl
  · cases result with
    | error e => exact ⟨⟨rfl, rfl⟩, by simp [Purpose.next, Stage.role]⟩
    | ok v =>
      simp only [Purpose.next]
      split
      · exact ⟨⟨rfl, rfl⟩, by simp [Stage.role]⟩
      · exact ⟨fun _ => ⟨rfl, rfl⟩, fun hrole => by cases hrole⟩
  · exact ⟨fun _ => ⟨rfl, rfl⟩, fun hrole => by cases hrole⟩

theorem Purpose.said_late (h : purpose = .introduce ∨ purpose = .shutdown) (opening closing : Nat) :
    (purpose.late opening closing).Said purpose.part.looked
        (Part.script.take (purpose.part.index + 1)) ∧
      (purpose.late opening closing).role ≠ .visits := by
  rcases h with rfl | rfl
  · exact ⟨⟨rfl, rfl⟩, fun hrole => by cases hrole⟩
  · exact ⟨fun _ => ⟨rfl, rfl⟩, fun hrole => by cases hrole⟩

theorem Purpose.isPrincipal_of_isOwn (h : purpose.part.isOwn = true) (deadline : Option Nat) :
    (purpose.role deadline).isPrincipal = true := by
  cases purpose <;> first | rfl | cases h

theorem Stage.part_of_place {work : Work} {deadline : Option Nat} {id : Option Nat}
    (h : (Stage.working work deadline purpose).place = some (part, id)) :
    part = purpose.part := by
  cases work with
  | exchange exchange =>
    cases exchange with
    | sending id' sending =>
      cases sending with
      | fresh payload => cases h
      | _ => exact (Prod.mk.inj (Option.some.inj h)).1.symm
    | _ => cases h
  | send sending =>
    cases sending with
    | fresh payload => cases h
    | _ => exact (Prod.mk.inj (Option.some.inj h)).1.symm

theorem Purpose.part_of_traffic (h : purpose.part.isOwn = false) :
    purpose.part = .traffic ∧ (purpose = .answer ∨ ∃ outcome, purpose = .message outcome) := by
  cases purpose with
  | answer => exact ⟨rfl, .inl rfl⟩
  | message outcome => exact ⟨rfl, .inr ⟨outcome, rfl⟩⟩
  | _ => cases h

theorem Purpose.over_of_traffic (h : purpose.part.isOwn = false) (reads : Handshake.Decoder)
    (deadline : Option Nat) (result : Except SessionError Json) :
    ∃ outcome, purpose.next reads deadline result = .over outcome := by
  rcases (Purpose.part_of_traffic h).2 with rfl | ⟨outcome, rfl⟩
  · exact ⟨_, rfl⟩
  · cases result <;> exact ⟨_, rfl⟩

namespace Session

/-! ## The line and the script

`Spoken` is about the line alone: it is sorted, its own parts are a beginning of the script, and
they are those that the phase asks for. A line grows at its end or loses a place, and these are the
lemmas about that. -/

/-- What has been said by a phase. -/
def Phase.Said (looked : List Bool) (own : List Part) : Phase → Prop
  | .unbegun | .starting => looked = []
  | .failed => looked = [] ∧ own = [.opening]
  | .running => looked = [] ∧ own = [.opening, .opened]
  | .stopping => [.opening, .opened] <+: own
  | .stopped =>
    looked = [true] ∧ own = [.opening, .opened] ∨ looked = [false] ∧ own = Part.script

def own (line : List (Part × Option Nat)) : List Part :=
  (line.filter (·.1.isOwn)).map Prod.fst

variable {line : List (Part × Option Nat)} {c : Phase} {h : View} {n : Nat}

theorem mem_own {a : Part} :
    a ∈ own line ↔ a.isOwn = true ∧ ∃ id, (a, id) ∈ line := by
  constructor
  · intro h
    obtain ⟨⟨b, id⟩, hx, rfl⟩ := List.mem_map.mp h
    obtain ⟨hx, hown⟩ := List.mem_filter.mp hx
    exact ⟨hown, id, hx⟩
  · rintro ⟨hown, id, hx⟩
    exact List.mem_map.mpr ⟨(a, id), List.mem_filter.mpr ⟨hx, hown⟩, rfl⟩

theorem own_append_own {p : Part} (id : Option Nat) (h : p.isOwn = true) :
    own (line ++ [(p, id)]) = own line ++ [p] := by
  unfold own
  rw [List.filter_append, List.map_append]
  congr 1
  simp [h]

theorem own_append_traffic (id : Option Nat) :
    own (line ++ [(Part.traffic, id)]) = own line := by
  unfold own
  rw [List.filter_append, List.filter_cons_of_neg (by simp [Part.isOwn]), List.filter_nil,
    List.append_nil]

structure Spoken (looked : List Bool) (line : List (Part × Option Nat)) (c : Phase) : Prop where
  sorted : (line.map Prod.fst).Pairwise Part.Before
  traffic : ∀ id, (.traffic, id) ∈ line → c.introduced = true
  phase : c.Said looked (own line)
  part : own line <+: Part.script
  asked : .leaving ∈ own line → looked = [false]

theorem Phase.Turns.introduced {d : Phase} (h : c.Turns d) (hc : c.introduced = true) :
    d.introduced = true := by
  cases h <;> first | exact hc | rfl

section Spoken

variable {looked : List Bool} {line line' : List (Part × Option Nat)} {c d : Phase}

theorem Spoken.turn (h : Spoken looked line c) (ht : c.Turns d) (hd : d.Said looked (own line)) :
    Spoken looked line d :=
  ⟨h.sorted, fun id hid => ht.introduced (h.traffic id hid), hd, h.part, h.asked⟩

theorem Spoken.lose (h : Spoken looked line c) (hsub : line'.Sublist line)
    (hown : own line' = own line) : Spoken looked line' c := by
  refine ⟨h.sorted.sublist (hsub.map _), fun id hid => h.traffic id (hsub.subset hid), ?_, ?_, ?_⟩
  · rw [hown]
    exact h.phase
  · rw [hown]
    exact h.part
  · rw [hown]
    exact h.asked

theorem sorted_append {p : Part} {id : Option Nat}
    (h : (line.map Prod.fst).Pairwise Part.Before) (hbefore : ∀ a i, (a, i) ∈ line → a.Before p) :
    ((line ++ [(p, id)]).map Prod.fst).Pairwise Part.Before := by
  rw [List.map_append, List.pairwise_append]
  refine ⟨h, List.pairwise_singleton _ _, fun a ha b hb => ?_⟩
  obtain ⟨⟨a, i⟩, hx, rfl⟩ := List.mem_map.mp ha
  obtain rfl := List.mem_singleton.mp hb
  exact hbefore a i hx

theorem Spoken.join_traffic (h : Spoken looked line c) (hc : c.introduced = true)
    (hleaving : .leaving ∉ own line) (id : Option Nat) :
    Spoken looked (line ++ [(Part.traffic, id)]) c := by
  have hleft : .left ∉ own line := fun hmem => hleaving (Part.leaving_of_left h.part hmem)
  refine ⟨sorted_append h.sorted fun a i ha => ?_, fun _ _ => hc, ?_, ?_, ?_⟩
  · cases a with
    | traffic => exact .inr ⟨rfl, rfl⟩
    | leaving => exact absurd (mem_own.mpr ⟨rfl, i, ha⟩) hleaving
    | left => exact absurd (mem_own.mpr ⟨rfl, i, ha⟩) hleft
    | _ => exact .inl (by decide)
  · rw [own_append_traffic]
    exact h.phase
  · rw [own_append_traffic]
    exact h.part
  · rw [own_append_traffic]
    exact h.asked

theorem Spoken.join_own {p : Part} (h : Spoken looked line c) (hown : p.isOwn = true)
    (hlooked : looked = p.looked) (hsaid : own line = Part.script.take p.index)
    (hplace : c = .starting ∨ c = .stopping ∧ 2 < p.rank) (id : Option Nat) :
    Spoken looked (line ++ [(p, id)]) c := by
  have hnext : own (line ++ [(p, id)]) = Part.script.take (p.index + 1) := by
    rw [own_append_own id hown, hsaid, Part.take_index_append hown]
  refine ⟨sorted_append h.sorted fun a i ha => ?_, fun i hi => ?_, ?_, ?_, fun hleaving => ?_⟩
  · cases hown' : a.isOwn with
    | true =>
      have hmem : a ∈ own line := mem_own.mpr ⟨hown', i, ha⟩
      rw [hsaid] at hmem
      exact .inl (Part.rank_of_mem_take hmem)
    | false =>
      obtain rfl : a = .traffic := by cases a <;> first | rfl | cases hown'
      rcases hplace with rfl | ⟨-, hrank⟩
      · cases h.traffic i ha
      · exact .inl hrank
  · rcases List.mem_append.mp hi with hi | hi
    · exact h.traffic i hi
    · obtain ⟨rfl, -⟩ := Prod.mk.inj (List.mem_singleton.mp hi)
      cases hown
  · rcases hplace with rfl | ⟨rfl, -⟩
    · exact h.phase
    · rw [own_append_own id hown]
      exact List.IsPrefix.trans h.phase (List.prefix_append _ _)
  · rw [hnext]
    exact List.take_prefix _ _
  · rw [hnext] at hleaving
    rw [hlooked]
    cases p with
    | leaving => rfl
    | left => rfl
    | traffic => cases hown
    | _ => exact absurd hleaving (by decide)

end Spoken

theorem Ordered.traffic {work : Work} {deadline : Option Nat} (ho : Ordered c h)
    (hn : h.stage n = some (.working work deadline purpose))
    (htraffic : purpose.part.isOwn = false) :
    (Stage.working work deadline purpose).role = .visits ∧ c.introduced = true := by
  have hfits := ho.fits n _ hn
  have hrole : (Stage.working work deadline purpose).role = .visits := by
    cases deadline with
    | none => cases purpose <;> first | rfl | cases htraffic
    | some deadline =>
      have hstray : (Stage.working work (some deadline) purpose).role = .stray := by
        cases purpose <;> first | rfl | cases htraffic
      exact (hstray ▸ hfits : c.Fits n .stray).not_stray.elim
  exact ⟨hrole, (hrole ▸ hfits : c.Fits n .visits).visits.2⟩

theorem Ordered.speaks {work : Work} {deadline : Option Nat} (ho : Ordered c h)
    (hn : h.stage n = some (.working work deadline purpose)) (hown : purpose.part.isOwn = true) :
    c = .starting ∨ c = .stopping ∧ 2 < purpose.part.rank := by
  have hfits := ho.fits n _ hn
  cases purpose with
  | introduce | confirm introduction => exact .inl (Phase.Fits.opens hfits).2
  | shutdown => exact .inr ⟨(Phase.Fits.closes hfits).2, Nat.lt_succ_self 2⟩
  | leave report => exact .inr ⟨(Phase.Fits.closes hfits).2, Nat.lt_of_sub_eq_succ rfl⟩
  | _ => cases hown

/-- What an event finds out about the server for the call that has drained the session. -/
def View.look (h : View) (e : Event) (h' : View) : List Bool :=
  match e with
  | .step (.call n) => Stage.finds h.hungUp (h.stage n) (h'.stage n)
  | _ => []

theorem View.look_call (h h' : View) (n : Nat) :
    h.look (.step (.call n)) h' = Stage.finds h.hungUp (h.stage n) (h'.stage n) := rfl

theorem View.look_of_ne {e : Event} (h h' : View) (he : ∀ n, e ≠ .step (.call n)) :
    h.look e h' = [] := by
  unfold View.look
  split
  · exact absurd rfl (he _)
  · rfl

theorem View.look_eq_nil {h' : View} (hstage : h'.stage = h.stage) (e : Event) :
    h.look e h' = [] := by
  unfold View.look
  split
  · rw [hstage, Stage.finds_self]
  · rfl

/-- A message of the session's own is not given up before it is on the wire. -/
def View.Unbroken (h : View) (out : List Dispatch) (h' : View) : Prop :=
  ∀ n stage part, h.stage n = some stage → stage.sends = some part →
    (∃ next, h'.stage n = some next ∧ next.sends = some part) ∨ ∃ d ∈ out, d.task = .call n

theorem View.Unbroken.absurd {h' : View} {out : List Dispatch} {stage : Stage}
    (hunbroken : h.Unbroken out h') (hn : h.stage n = some stage) (hsends : stage.sends = some part)
    (hout : out = []) (hnext : ∀ next, h'.stage n = some next → next.sends ≠ some part) :
    False := by
  rcases hunbroken n stage part hn hsends with ⟨next, hn', hsends'⟩ | ⟨d, hd, -⟩
  · exact hnext next hn' hsends'
  · rw [hout] at hd
    cases hd

theorem own_of_filter {line' : List (Part × Option Nat)}
    (h : line'.filter (·.1.isOwn) = line.filter (·.1.isOwn)) : own line' = own line :=
  congrArg (List.map Prod.fst) h

theorem View.line_lost {k : View} {next : Option Stage} (L : List Dispatch)
    (hstage : k.stage = h.stage) (hqueue : k.queue = h.queue.filter (· != .call n))
    (htraffic : ∀ part id, h.place (.call n) = some (part, id) → part.isOwn = false) :
    ((k.put n next).line L).Sublist (h.line L) ∧ own ((k.put n next).line L) = own (h.line L) := by
  have hplace : ∀ x : Part × Option Nat, h.place (.call n) = some x → x.1.isOwn = false :=
    fun x => htraffic x.1 x.2
  obtain ⟨hsub, hfilter⟩ := View.line_left L hstage hqueue (·.1.isOwn) hplace
  exact ⟨hsub, own_of_filter hfilter⟩

/-! ## Keeping to the script

`Aligned` adds the stages of the calls. The step is shown for one move at a time: work that goes on,
work that ends (traffic and the session's own messages are different cases), work that takes too
long, and the look after the drain. `of_moves` and `step` only put these together. -/

/-- The line and the stages of the calls go together. -/
structure Aligned (looked : List Bool) (line : List (Part × Option Nat)) (c : Phase) (h : View) :
    Prop where
  spoken : Spoken looked line c
  said : ∀ n stage, h.stage n = some stage → stage.Said looked (own line)
  quiet : .leaving ∈ own line → ∀ n stage, h.stage n = some stage → stage.goesOn = true →
    stage.role ≠ .visits

namespace Aligned

variable {looked looked' : List Bool} {line line' : List (Part × Option Nat)} {c d : Phase}
  {h k h' : View} {n : Nat} {stage : Stage} {hs : List Happening} {out L : List Dispatch}

variable {next : Option Stage} {work : Work} {deadline : Option Nat}

theorem put (ha : Aligned looked line c h) (ho : Ordered c h) (hn : h.stage n = some stage)
    (hstage : k.stage = h.stage) (hspoken : Spoken looked' line' d)
    (hothers : looked' = looked ∧ own line' = own line ∨ stage.role.isPrincipal = true)
    (hleaves : .leaving ∈ own line' → .leaving ∈ own line ∨
      ∀ m st, h.stage m = some st → st.goesOn = true → st.role ≠ .visits)
    (hsaid : ∀ st, next = some st → st.Said looked' (own line'))
    (hquiet : ∀ st, next = some st → .leaving ∈ own line' → st.goesOn = true → st.role ≠ .visits) :
    Aligned looked' line' d (k.put n next) := by
  refine ⟨hspoken, fun m st hm => ?_, fun hleaving m st hm hgo => ?_⟩
  · rcases View.put_stage_eq_some.mp hm with ⟨-, heq⟩ | ⟨hne, hm⟩
    · exact hsaid st heq
    · rw [hstage] at hm
      rcases hothers with ⟨rfl, heq⟩ | hprincipal
      · rw [heq]
        exact ha.said m st hm
      · -- Nobody else opens or closes the session.
        refine Stage.said_of_user ?_ ?_ _ _
        · cases hrole : st.role.isPrincipal with
          | false => rfl
          | true => exact absurd (ho.principal_unique hm hn hrole hprincipal) hne
        · intro hstray
          exact (hstray ▸ ho.fits m st hm : c.Fits m .stray).not_stray
  · rcases View.put_stage_eq_some.mp hm with ⟨-, heq⟩ | ⟨-, hm⟩
    · exact hquiet st heq hleaving hgo
    · rw [hstage] at hm
      rcases hleaves hleaving with hleaving | hnobody
      · exact ha.quiet hleaving m st hm hgo
      · exact hnobody m st hm hgo

theorem keep {next : Stage} (ha : Aligned looked line c h) (ho : Ordered c h)
    (hn : h.stage n = some stage) (hstage : k.stage = h.stage)
    (ht : c.Turns d) (hd : d.Said looked (own line)) (hsaid : next.Said looked (own line))
    (hquiet : next.goesOn = true → next.role = .visits →
      stage.goesOn = true ∧ stage.role = .visits ∨ .leaving ∉ own line) :
    Aligned looked line d (k.put n (some next)) := by
  refine ha.put ho hn hstage (ha.spoken.turn ht hd) (.inl ⟨rfl, rfl⟩) .inl ?_ ?_
  · intro st heq
    exact Option.some.inj heq ▸ hsaid
  · intro st heq hleaving hgo hrole
    obtain rfl := Option.some.inj heq
    rcases hquiet hgo hrole with ⟨hgo', hrole'⟩ | hnot
    · exact ha.quiet hleaving n stage hn hgo' hrole'
    · exact hnot hleaving

theorem lose (ha : Aligned looked line c h) (ho : Ordered c h) (hn : h.stage n = some stage)
    (hstage : k.stage = h.stage) (hsub : line'.Sublist line) (hown : own line' = own line)
    (hnext : ∀ st, next = some st → ∃ outcome, st = .over outcome) :
    Aligned looked line' c (k.put n next) := by
  refine ha.put ho hn hstage (ha.spoken.lose hsub hown) (.inl ⟨rfl, hown⟩) (hown ▸ .inl) ?_ ?_
  · intro st heq
    obtain ⟨outcome, rfl⟩ := hnext st heq
    trivial
  · intro st heq hleaving hgo
    obtain ⟨outcome, rfl⟩ := hnext st heq
    cases hgo

theorem works {work' : Work} (ha : Aligned looked (h.line L) c h) (ho : Ordered c h) (hl : h.InLine)
    (hn : h.stage n = some (.working work deadline purpose))
    (hw : View.Works h n work hs out k work' purpose) (hturn : h.InTurn (.step (.call n))) :
    Aligned looked ((k.put n (some (.working work' deadline purpose))).line (L ++ out)) c
      (k.put n (some (.working work' deadline purpose))) := by
  have hstage : k.stage = h.stage := hw.keeps.stage
  rcases hw.line hl hn L with ⟨hgo, heq⟩ | ⟨id, payload, rfl, rfl, -, heq⟩
  · rw [heq]
    refine ha.keep ho hn hstage (.stays c) ha.spoken.phase ?_ ?_
    · intro hown
      have hsaid := ha.said n _ hn hown
      rwa [hgo]
    · intro hgo' hrole
      exact .inl ⟨hgo.symm.trans hgo', hrole⟩
  · rw [heq]
    have hgo : (Work.carrying id (.fresh payload)).goesOn = true := by cases id <;> rfl
    have hgo' : (Work.carrying id (.queued payload)).goesOn = false := by cases id <;> rfl
    have hquiet : ∀ line, ∀ st,
        some (Stage.working (.carrying id (.queued payload)) deadline purpose) = some st →
        .leaving ∈ own line → st.goesOn = true → st.role ≠ .visits := by
      intro line st heq _ hgo
      obtain rfl := Option.some.inj heq
      cases hgo'.symm.trans hgo
    cases hown : purpose.part.isOwn with
    | true =>
      obtain ⟨hlooked, hsaid⟩ := ha.said n _ hn hown
      rw [if_pos hgo] at hsaid
      refine ha.put ho hn hstage (ha.spoken.join_own hown hlooked hsaid (ho.speaks hn hown) id)
        (.inr (Purpose.isPrincipal_of_isOwn hown deadline)) (fun hleaving => ?_)
        (fun st heq => ?_) (hquiet _)
      · -- Traffic that has been let in is in line before the session takes leave.
        rw [own_append_own id hown] at hleaving
        rcases List.mem_append.mp hleaving with hleaving | hleaving
        · exact .inl hleaving
        · right
          intro m st hm hst hrole
          have hpart := List.mem_singleton.mp hleaving
          refine hturn n _ hn rfl (Stage.knocks_carrying ..) m st hm (.inr ⟨⟨hst, hrole⟩, ?_⟩)
          cases purpose <;> first | rfl | cases hpart
      · obtain rfl := Option.some.inj heq
        intro _
        rw [own_append_own id hown, hsaid, Part.take_index_append hown, hgo']
        exact ⟨hlooked, rfl⟩
    | false =>
      obtain ⟨hpart, -⟩ := Purpose.part_of_traffic hown
      obtain ⟨hrole, hc⟩ := ho.traffic hn hown
      have hleaving : .leaving ∉ own (h.line L) := fun hmem => ha.quiet hmem n _ hn hgo hrole
      rw [hpart]
      have hsame : own (h.line L ++ [(.traffic, id)]) = own (h.line L) := own_append_traffic id
      refine ha.put ho hn hstage (ha.spoken.join_traffic hc hleaving id) (.inl ⟨rfl, hsame⟩)
        (hsame ▸ .inl) (fun st heq => ?_) (hquiet _)
      obtain rfl := Option.some.inj heq
      intro hown'
      cases hown.symm.trans hown'

theorem line_settle (k : View) (n : Nat) (purpose : Purpose) (result : Except SessionError Json)
    (next : Option Stage) (L : List Dispatch) :
    ((k.settle purpose result).put n next).line L = (k.put n next).line L := by
  obtain ⟨state, introduction, hsettle⟩ := View.settle_eq k purpose result
  rw [hsettle]
  rfl

theorem ends_traffic {result : Except SessionError Json} (ha : Aligned looked (h.line L) c h)
    (ho : Ordered c h) (hl : h.InLine) (hn : h.stage n = some (.working work deadline purpose))
    (he : View.Ends h n work hs out k result purpose) (hown : purpose.part.isOwn = false) :
    Aligned looked ((k.put n (some (purpose.next h.reads deadline result))).line (L ++ out)) c
      (k.put n (some (purpose.next h.reads deadline result))) := by
  have hnext := (purpose.follows_next h.reads deadline result).place
  have hover := Purpose.over_of_traffic hown h.reads deadline result
  have hlost : ((k.put n (some (purpose.next h.reads deadline result))).line (L ++ out)).Sublist
        (h.line L) ∧
      own ((k.put n (some (purpose.next h.reads deadline result))).line (L ++ out)) =
        own (h.line L) := by
    rcases he.line hl hn hnext L with heq | ⟨rfl, rfl, id, hplace⟩
    · rw [heq]
      exact ⟨List.Sublist.refl _, rfl⟩
    · rw [List.append_nil]
      refine View.line_lost L rfl rfl fun part id' hplace' => ?_
      rw [View.place_of_stage hn, hplace] at hplace'
      rw [← (Prod.mk.inj (Option.some.inj hplace')).1]
      exact hown
  refine ha.lose ho hn he.keeps.stage hlost.1 hlost.2 fun st heq => ?_
  exact Option.some.inj heq ▸ hover

theorem ends_own {result : Except SessionError Json} (ha : Aligned looked (h.line L) c h)
    (ho : Ordered c h) (hl : h.InLine) (hgen : work.Genuine h.greeting purpose)
    (hn : h.stage n = some (.working work deadline purpose))
    (he : View.Ends h n work hs out k result purpose) (hown : purpose.part.isOwn = true)
    (hunbroken : h.Unbroken out ((k.settle purpose result).put n
      (some (purpose.next h.reads deadline result)))) (ht : c.Turns d)
    (ho' : Ordered d ((k.settle purpose result).put n (some (purpose.next h.reads deadline result)))) :
    Aligned looked (((k.settle purpose result).put n
        (some (purpose.next h.reads deadline result))).line (L ++ out)) d
      ((k.settle purpose result).put n (some (purpose.next h.reads deadline result))) := by
  have hmoves : View.Moves h n (.working work deadline purpose) hs out (k.settle purpose result)
      (purpose.next h.reads deadline result) := .ends he
  have hstage := hmoves.around.stage
  have hnext := (purpose.follows_next h.reads deadline result).place
  have hbroken : (Stage.working work deadline purpose).sends = some purpose.part → out ≠ [] := by
    intro hsends hout
    refine hunbroken.absurd hn hsends hout fun next hn' => ?_
    rw [View.put_stage_self] at hn'
    exact Option.some.inj hn' ▸ (purpose.follows_next h.reads deadline result).sends
  have hline : ((k.settle purpose result).put n (some (purpose.next h.reads deadline result))).line
      (L ++ out) = h.line L := by
    rw [line_settle]
    rcases he.line hl hn hnext L with heq | ⟨-, hout, id, hplace⟩
    · exact heq
    · exact absurd hout (hbroken (Stage.sends_of_place hplace hown))
  have hsame : (¬ ∃ introduction value, purpose = .confirm introduction ∧ result = .ok value) →
      d = c := by
    intro hnot
    have hstate := ho'.state
    rw [View.settle_of_not_confirmed hnot] at hstate
    exact ht.eq_of_state (hstate.symm.trans (he.keeps.state.trans ho.state))
  obtain ⟨hlooked, hsaid⟩ := ha.said n _ hn hown
  rw [hline]
  cases he with
  | hungUp hup => exact absurd rfl (hbroken (if_pos hown))
  | gone id hhead hwriter =>
    exact absurd rfl (hbroken (Stage.sends_of_place (Stage.place_carrying ..) hown))
  | @replied id reply =>
    obtain ⟨method, params, hasks⟩ := hgen
    have hpurpose := hasks.own hown
    obtain rfl : d = c := by
      refine hsame ?_
      rintro ⟨introduction, value, rfl, -⟩
      rcases hpurpose with heq | heq <;> cases heq
    obtain ⟨hsaid', hrole⟩ := Purpose.said_next hpurpose h.reads deadline reply.result
    refine ha.keep ho hn hstage ht ha.spoken.phase ?_ ?_
    · rw [hlooked, hsaid]
      exact hsaid'
    · intro _ hvisits
      exact absurd hvisits hrole
  | written =>
    obtain ⟨notice, htells, -⟩ := hgen
    rcases htells.own hown with ⟨introduction, rfl⟩ | ⟨report, rfl⟩
    · rcases ho.speaks hn hown with rfl | ⟨-, hrank⟩
      · have hstate : d.state = .running := ho'.state.symm
        have hd : d = .running := by
          cases ht <;> first | rfl | cases hstate
        subst hd
        exact ha.keep ho hn hstage ht ⟨hlooked, hsaid⟩ trivial fun hgo => by cases hgo
      · exact absurd hrank (by simp [Purpose.part, Part.rank])
    · obtain rfl : d = c := by
        refine hsame ?_
        rintro ⟨introduction, value, heq, -⟩
        cases heq
      exact ha.keep ho hn hstage ht ha.spoken.phase (.inr ⟨hlooked, hsaid⟩) fun hgo => by cases hgo

theorem expires {deadline opening closing : Nat} (ha : Aligned looked (h.line L) c h)
    (ho : Ordered c h) (hgen : work.Genuine h.greeting purpose)
    (hn : h.stage n = some (.working work (some deadline) purpose)) (hidle : work.goesOn = false)
    (hunbroken : h.Unbroken [] ((h.leave (.call n)).put n (some (purpose.late opening closing)))) :
    Aligned looked (((h.leave (.call n)).put n (some (purpose.late opening closing))).line L) c
      ((h.leave (.call n)).put n (some (purpose.late opening closing))) := by
  have hlate := (purpose.follows_late opening closing).place
  cases hown : purpose.part.isOwn with
  | false =>
    -- Traffic has no deadline.
    have hrole := (ho.traffic hn hown).1
    rcases (Purpose.part_of_traffic hown).2 with rfl | ⟨outcome, rfl⟩ <;> cases hrole
  | true =>
    cases hplace : (Stage.working work (some deadline) purpose).place with
    | some x =>
      have hpart : x.1 = purpose.part := Stage.part_of_place hplace
      have hsends := Stage.sends_of_place hplace (hpart ▸ hown)
      rw [hpart] at hsends
      refine (hunbroken.absurd hn hsends rfl fun next hn' => ?_).elim
      rw [View.put_stage_self] at hn'
      exact Option.some.inj hn' ▸ (purpose.follows_late opening closing).sends
    | none =>
      obtain ⟨id, rfl⟩ := Work.awaiting_of_idle hidle hplace
      obtain ⟨method, params, hasks⟩ := hgen
      obtain ⟨hsaid', hrole⟩ := Purpose.said_late (hasks.own hown) opening closing
      obtain ⟨hlooked, hsaid⟩ := ha.said n _ hn hown
      have hplace' := (View.place_of_stage hn).trans hplace
      have hline : ((h.leave (.call n)).put n (some (purpose.late opening closing))).line L =
          h.line L :=
        View.line_put L rfl (hlate.trans hplace'.symm) (.inr ⟨hplace', .inr (.inr rfl)⟩)
      rw [hline]
      refine ha.keep ho hn rfl (.stays c) ha.spoken.phase ?_ ?_
      · rw [hlooked, hsaid]
        exact hsaid'
      · intro _ hvisits
        exact absurd hvisits hrole

theorem looks_round {previous : SessionState} {next : Stage} {hungUp : Bool}
    (ha : Aligned looked line c h) (ho : Ordered c h) (hn : h.stage n = some (.drained previous))
    (hstage : k.stage = h.stage) (hrole : (Stage.drained previous).role = .closes) (hc : c = .stopping)
    (hbefore : looked = [] ∧ own line = [.opening, .opened])
    (hsaid : next.Said [hungUp] (own line)) :
    Aligned (looked ++ [hungUp]) line c (k.put n (some next)) := by
  have hleaving : .leaving ∉ own line := by
    rw [hbefore.2]
    decide
  subst hc
  rw [hbefore.1, List.nil_append]
  have hspoken : Spoken [hungUp] line .stopping :=
    ⟨ha.spoken.sorted, ha.spoken.traffic, ha.spoken.phase, ha.spoken.part,
      fun hmem => absurd hmem hleaving⟩
  refine ha.put ho hn hstage hspoken (.inr (by rw [hrole]; rfl)) .inl ?_ ?_
  · intro st heq
    exact Option.some.inj heq ▸ hsaid
  · intro st _ hmem
    exact absurd hmem hleaving

theorem of_moves {next : Stage} (ha : Aligned looked (h.line L) c h) (ho : Ordered c h)
    (hgen : stage.Genuine h.greeting) (hl : h.InLine) (hn : h.stage n = some stage)
    (hm : View.Moves h n stage hs out k next) (hturn : h.InTurn (.step (.call n)))
    (hunbroken : h.Unbroken out (k.put n (some next))) (ht : c.Turns d)
    (ho' : Ordered d (k.put n (some next))) :
    Aligned (looked ++ Stage.finds h.hungUp (some stage) (some next))
      ((k.put n (some next)).line (L ++ out)) d (k.put n (some next)) := by
  have hfits := ho.fits n stage hn
  have hstate := ho'.state
  have hsame : k.state = h.state → d = c := fun heq =>
    ht.eq_of_state (hstate.symm.trans (heq.trans ho.state))
  have hstage := hm.around.stage
  have hidle := hm.line_idle hn
  have hsaid := ha.said n stage hn
  have hphase := ha.spoken.phase
  have hnever : ∀ {P : Prop}, false = true → P := fun h => Bool.noConfusion h
  -- Most steps have nothing to do with the line, and find out nothing about the server.
  have hplain : stage.isDrained = false → stage.place = none → next.place = none → out = [] →
      Aligned looked (h.line L) d (k.put n (some next)) →
      Aligned (looked ++ Stage.finds h.hungUp (some stage) (some next))
        ((k.put n (some next)).line (L ++ out)) d (k.put n (some next)) := by
    intro hdrained hplace hplace' hout halign
    rw [Stage.finds_eq_nil hdrained, List.append_nil, hidle hplace hplace' hout L]
    exact halign
  cases hm with
  | opens =>
    obtain ⟨rfl, rfl⟩ := hfits.begins
    obtain rfl : d = .starting := by cases ht <;> first | rfl | cases hstate
    refine hplain rfl rfl rfl rfl (ha.keep ho hn hstage ht hsaid.1 (fun _ => hsaid) ?_)
    intro _ hrole
    cases hrole
  | stopsIdle hidle' | rejects hask hdoor herror | ignores =>
    obtain rfl := hsame rfl
    exact hplain rfl rfl rfl rfl (ha.keep ho hn hstage ht hphase trivial hnever)
  | halts hprevious hbusy =>
    have hbusy' : c.state = .running ∨ c.state = .starting := by
      rw [← ho.state, hprevious]
      exact hbusy
    obtain rfl := Phase.running_of_busy hfits.visits.2 hbusy'
    obtain rfl : d = .stopping := by cases ht <;> first | rfl | cases hstate
    have hopened : [.opening, .opened] <+: own (h.line L) := hphase.2 ▸ List.prefix_rfl
    exact hplain rfl rfl rfl rfl (ha.keep ho hn hstage ht hopened hphase hnever)
  | admits hask hrun hup' =>
    obtain rfl := hsame rfl
    obtain rfl := ho.running_of_state hrun
    refine hplain rfl rfl rfl rfl
      (ha.keep ho hn hstage ht hphase trivial fun _ _ => .inr ?_)
    rw [hphase.2]
    decide
  | asks | tells =>
    obtain rfl := hsame rfl
    exact hplain rfl rfl rfl rfl
      (ha.keep ho hn hstage ht hphase hnever fun _ _ => .inl ⟨rfl, rfl⟩)
  | works hw =>
    obtain rfl := hsame hw.keeps.state
    rw [Stage.finds_eq_nil rfl, List.append_nil]
    exact ha.works ho hl hn hw hturn
  | @ends work hs out k result deadline purpose he =>
    rw [Stage.finds_eq_nil rfl, List.append_nil]
    cases hown : purpose.part.isOwn with
    | true => exact ha.ends_own ho hl hgen hn he hown hunbroken ht ho'
    | false =>
      have hsettle : k.settle purpose result = k := by
        refine View.settle_of_not_confirmed ?_
        rintro ⟨introduction, value, rfl, -⟩
        cases hown
      rw [hsettle] at hsame ⊢
      obtain rfl := hsame he.keeps.state
      exact ha.ends_traffic ho hl hn he hown
  | expires hblocked hlate =>
    obtain rfl := hsame rfl
    rw [Stage.finds_eq_nil rfl, List.append_nil, List.append_nil]
    exact ha.expires ho hgen hn hblocked hunbroken
  | looks | drains =>
    obtain rfl := hsame rfl
    exact hplain rfl rfl rfl rfl (ha.keep ho hn hstage ht hphase hsaid hnever)
  | departs hup' =>
    obtain rfl := hsame rfl
    rw [hidle rfl rfl rfl L, hup']
    exact ha.looks_round ho hn hstage rfl hfits.closes.2 hsaid fun _ => ⟨rfl, hsaid.2⟩
  | @quits previous hquits =>
    obtain rfl := hsame rfl
    by_cases hprevious : previous = .running
    · subst hprevious
      rw [hidle rfl rfl rfl L, hquits rfl]
      exact ha.looks_round ho hn hstage rfl hfits.closes.2 hsaid (.inl ⟨rfl, hsaid.2⟩)
    · rw [Stage.role, if_neg hprevious] at hfits
      exact hfits.not_stray.elim
  | givesUp hs | closes hs =>
    obtain rfl := hsame hs.keeps.1
    exact hplain rfl rfl rfl rfl (ha.keep ho hn hstage ht hphase hsaid hnever)
  | gaveUp =>
    rw [Stage.role, ho.isOpening_of_givingUp hn, if_pos rfl] at hfits
    obtain ⟨rfl, rfl⟩ := hfits.opens
    obtain rfl : d = .failed := by cases ht <;> first | rfl | cases hstate
    exact hplain rfl rfl rfl rfl (ha.keep ho hn hstage ht hsaid trivial hnever)
  | closed =>
    obtain ⟨-, rfl⟩ := hfits.closes
    obtain rfl : d = .stopped := by cases ht <;> first | rfl | cases hstate
    exact hplain rfl rfl rfl rfl (ha.keep ho hn hstage ht hsaid trivial hnever)

theorem still (ha : Aligned looked line c h) (hstage : k.stage = h.stage) :
    Aligned looked line c k := by
  refine ⟨ha.spoken, ?_, ?_⟩
  · rw [hstage]
    exact ha.said
  · rw [hstage]
    exact ha.quiet

theorem called {ask : Ask} (ha : Aligned looked line c h) (hask : ask ≠ .opening) :
    Aligned looked line c (h.put n (some (.fresh ask))) := by
  have hfresh : (Stage.fresh ask).Said looked (own line) ∧ (Stage.fresh ask).goesOn = false := by
    cases ask with
    | opening => exact absurd rfl hask
    | _ => exact ⟨trivial, rfl⟩
  refine ⟨ha.spoken, fun m st hm => ?_, fun hleaving m st hm hgo => ?_⟩
  · rcases View.put_stage_eq_some.mp hm with ⟨-, heq⟩ | ⟨-, hm⟩
    · exact Option.some.inj heq ▸ hfresh.1
    · exact ha.said m st hm
  · rcases View.put_stage_eq_some.mp hm with ⟨-, heq⟩ | ⟨-, hm⟩
    · rw [← Option.some.inj heq] at hgo
      cases hfresh.2.symm.trans hgo
    · exact ha.quiet hleaving m st hm hgo

theorem broken (ha : Aligned looked (h.line L) c h) (ho : Ordered c h) (hn : h.stage n = some stage)
    (hunbroken : h.Unbroken [] ((h.leave (.call n)).put n next))
    (hgivesUp : ∀ part st, stage.sends = some part → next = some st → st.sends ≠ some part)
    (hnext : ∀ part id, stage.place = some (part, id) → part.isOwn = false →
      ∀ st, next = some st → ∃ outcome, st = .over outcome)
    (hdropped : stage.place = none → next = none) :
    Aligned looked (((h.leave (.call n)).put n next).line L) c ((h.leave (.call n)).put n next) := by
  have htraffic : ∀ part id, stage.place = some (part, id) → part.isOwn = false := by
    intro part id hpart
    cases hown : part.isOwn with
    | false => rfl
    | true =>
      have hsends := Stage.sends_of_place hpart hown
      refine (hunbroken.absurd hn hsends rfl fun st hst => ?_).elim
      rw [View.put_stage_self] at hst
      exact hgivesUp part st hsends hst
  have hlost : (((h.leave (.call n)).put n next).line L).Sublist (h.line L) ∧
      own (((h.leave (.call n)).put n next).line L) = own (h.line L) := by
    refine View.line_lost L rfl rfl fun part id hpart => htraffic part id ?_
    rwa [View.place_of_stage hn] at hpart
  refine ha.lose ho hn rfl hlost.1 hlost.2 fun st heq => ?_
  cases hpart : stage.place with
  | none => cases (hdropped hpart).symm.trans heq
  | some x => exact hnext x.1 x.2 hpart (htraffic x.1 x.2 hpart) st heq

/-- Every event keeps to the script. -/
theorem step {e : Event} (ha : Aligned looked (h.line L) c h) (ho : Ordered c h)
    (hgen : h.Genuine) (hl : h.InLine) (hcourse : h.Course e hs out h') (hturn : h.InTurn e)
    (hunbroken : h.Unbroken out h') (hproper : e.Proper h.introduction.isSome) (ht : c.Turns d)
    (ho' : Ordered d h') :
    Aligned (looked ++ h.look e h') (h'.line (L ++ out)) d h' := by
  have hsame : h'.state = h.state → d = c := fun heq =>
    ht.eq_of_state (ho'.state.symm.trans (heq.trans ho.state))
  have hlook : (∀ n, e ≠ .step (.call n)) → looked ++ h.look e h' = looked := by
    intro he
    rw [View.look_of_ne h h' he, List.append_nil]
  have hstill : h'.stage = h.stage → h'.state = h.state → h'.line (L ++ out) = h.line L →
      Aligned (looked ++ h.look e h') (h'.line (L ++ out)) d h' := by
    intro hstage hstate hline
    obtain rfl := hsame hstate
    rw [View.look_eq_nil hstage, List.append_nil, hline]
    exact ha.still hstage
  cases hcourse with
  | quiet hheard => exact hstill rfl rfl (by rw [List.append_nil])
  | elapsed hnow | reader hread hup => exact hstill rfl rfl (by rw [List.append_nil]; rfl)
  | refusalJoins => exact hstill rfl rfl (View.line_refusal L rfl (.inr (.inl rfl)) rfl)
  | refusalLeaves | refusalWritten =>
    exact hstill rfl rfl (View.line_refusal L rfl (.inr (.inr rfl)) rfl)
  | called hn =>
    obtain rfl := hsame rfl
    rw [hlook (fun _ heq => by cases heq), List.append_nil, View.line_called L hn]
    exact ha.called hproper.2.1
  | dropped hn =>
    obtain rfl := hsame rfl
    rw [hlook (fun _ heq => by cases heq), List.append_nil]
    refine ha.broken ho hn hunbroken ?_ ?_ fun _ => rfl
    · intro _ st _ heq
      cases heq
    · intro _ _ _ _ st heq
      cases heq
  | @moved n stage next hs out k hn hm =>
    rw [View.look_call, hn, View.put_stage_self]
    exact ha.of_moves ho (hgen n stage hn) hl hn hm hturn hunbroken ht ho'
  | @poured n count id payload rest rest' deadline purpose hn =>
    obtain rfl := hsame rfl
    have hgo : (Work.carrying id (.writing payload rest')).goesOn =
        (Work.carrying id (.writing payload rest)).goesOn := by cases id <;> rfl
    rw [hlook (fun _ heq => by cases heq), List.append_nil, View.line_poured L hn]
    refine ha.keep ho hn rfl ht ha.spoken.phase ?_ ?_
    · intro hown
      rw [hgo]
      exact ha.said n _ hn hown
    · intro hgo' hrole
      exact .inl ⟨hgo.symm.trans hgo', hrole⟩
  | @refused n id payload rest deadline purpose cause hn =>
    obtain rfl := hsame rfl
    rw [hlook (fun _ heq => by cases heq), List.append_nil]
    refine ha.broken ho hn hunbroken ?_ ?_ ?_
    · intro part st hsends heq
      rw [← Option.some.inj heq, ← Stage.part_of_sends hsends]
      exact (purpose.follows_next h.reads deadline _).sends
    · intro part id' hpart hown st heq
      rw [Stage.part_of_place hpart] at hown
      rw [← Option.some.inj heq]
      exact Purpose.over_of_traffic hown ..
    · intro hnone
      cases (Stage.place_carrying ..).symm.trans hnone

end Aligned

end Session

end LanguageClient
