import LanguageClient.Proofs.Session.Phases
import LanguageClient.Proofs.Session.Dispatches
import Mathlib.Data.List.Basic

/-!
# The frames on the wire and those in line for it

Frames come to the wire in the order in which their calls have asked for the writer. So the frames
that are on the wire and those that wait behind them are looked at together: the *line* of a session
(`View.line`) is the sequence of both. To finish a frame changes nothing about the line; it grows at
its end when a call asks for the writer, and it loses a place when a call leaves the queue without
having written (`Works.line`, `Ends.line`, `line_put`, `line_left`).
-/

namespace LanguageClient

inductive Part where
  /-- The request for the server's introduction. -/
  | opening
  /-- The message that confirms it. -/
  | opened
  /-- Traffic of users. -/
  | traffic
  /-- The request that the server shut down. -/
  | leaving
  /-- The message that the client leaves. -/
  | left
  deriving DecidableEq

def Purpose.part : Purpose → Part
  | .introduce => .opening
  | .confirm _ => .opened
  | .answer | .message _ => .traffic
  | .shutdown => .leaving
  | .leave _ => .left

/-- The place of a call in the line, as long as it waits for the writer or writes: the part of its
frame, and its number if it is a request. -/
def Stage.place : Stage → Option (Part × Option Nat)
  | .working (.exchange (.sending id sending)) _ purpose =>
    sending.errand.map fun _ => (purpose.part, some id)
  | .working (.send sending) _ purpose => sending.errand.map fun _ => (purpose.part, none)
  | _ => none

theorem Stage.place_carrying (id : Option Nat) (sending : Sending) (deadline : Option Nat)
    (purpose : Purpose) :
    (Stage.working (.carrying id sending) deadline purpose).place =
      sending.errand.map fun _ => (purpose.part, id) := by
  cases id <;> rfl

/-- Whether a call is on its way to the writer: the handshake that is to begin, traffic that has been
let in, and work that goes on by itself. -/
def Stage.goesOn : Stage → Bool
  | .fresh .opening | .admitted _ => true
  | .working work _ _ => work.goesOn
  | _ => false

def Stage.number : Stage → Option Nat
  | .working (.exchange (.registered _ id)) _ _ => some id
  | .working (.exchange (.sending id (.fresh _))) _ _ => some id
  | _ => none

theorem Stage.goesOn_of_number {stage : Stage} {id : Nat} (h : stage.number = some id) :
    stage.goesOn = true := by
  unfold Stage.number at h
  split at h
  · rfl
  · rfl
  · cases h

/-- Whether a call asks for the writer by its next step. -/
def Stage.knocks : Stage → Bool
  | .working (.exchange (.sending _ (.fresh _))) _ _ => true
  | .working (.send (.fresh _)) _ _ => true
  | _ => false

/-- Whether a call asks the server to shut down. -/
def Stage.isFarewell : Stage → Bool
  | .working _ _ .shutdown => true
  | _ => false

theorem Stage.role_of_isFarewell {stage : Stage} (h : stage.isFarewell = true) :
    stage.role = .closes := by
  unfold Stage.isFarewell at h
  split at h
  · rfl
  · cases h

/-- The request of one call comes before that of another: numbers are given in the order of requests,
and traffic that has been let in comes before the session's farewell. -/
def Stage.Sooner (a b : Stage) : Prop :=
  (∃ i ∈ a.number, ∃ j ∈ b.number, i < j) ∨
    (a.goesOn = true ∧ a.role = .visits) ∧ b.isFarewell = true

theorem Stage.knocks_carrying (id : Option Nat) (payload : List UInt8) (deadline : Option Nat)
    (purpose : Purpose) :
    (Stage.working (.carrying id (.fresh payload)) deadline purpose).knocks = true := by
  cases id <;> rfl

theorem Stage.Follows.number {purpose : Purpose} {stage : Stage} (h : Stage.Follows purpose stage) :
    stage.number = none := by
  cases h <;> rfl

theorem Stage.Follows.place {purpose : Purpose} {stage : Stage} (h : Stage.Follows purpose stage) :
    stage.place = none := by
  cases h <;> rfl

/-- Work that neither goes on by itself nor has a place in the line waits for a reply. -/
theorem Work.awaiting_of_idle {work : Work} {deadline : Option Nat} {purpose : Purpose}
    (hidle : work.goesOn = false) (hplace : (Stage.working work deadline purpose).place = none) :
    ∃ id, work = .exchange (.awaiting id) := by
  cases work with
  | exchange exchange =>
    cases exchange with
    | awaiting id => exact ⟨id, rfl⟩
    | sending id sending =>
      cases sending with
      | fresh payload => cases hidle
      | _ => cases hplace
    | _ => cases hidle
  | send sending =>
    cases sending with
    | fresh payload => cases hidle
    | _ => cases hplace

namespace Session

/-- The place that a frame on the wire has taken. Refusals are not the client's own. -/
def Dispatch.place (d : Dispatch) : Option (Part × Option Nat) :=
  d.purpose.map fun purpose => (purpose.part, d.id)

/-! ## Queues

The line is what is on the wire, and behind it the queue. There is one lemma for each thing a call
can do to it: keep its place, join it, finish a frame, or leave. -/

section Queues

variable {α : Type} {f g : Task → Option α} {q : List Task} {t : Task}

theorem filter_left {p : α → Bool} (h : ∀ x, f t = some x → p x = false) :
    ((q.filter (· != t)).filterMap f).filter p = (q.filterMap f).filter p := by
  induction q with
  | nil => rfl
  | cons u q ih =>
    by_cases hu : u = t
    · subst hu
      rw [List.filter_cons_of_neg (by simp), ih]
      cases hf : f u with
      | none => rw [List.filterMap_cons_none hf]
      | some x =>
        have hx := h x hf
        rw [List.filterMap_cons_some hf, List.filter_cons_of_neg (by simp [hx])]
    · rw [List.filter_cons_of_pos (by simpa using hu)]
      cases hf : f u with
      | none => rw [List.filterMap_cons_none hf, List.filterMap_cons_none hf, ih]
      | some x =>
        rw [List.filterMap_cons_some hf, List.filterMap_cons_some hf, List.filter_cons, ih,
          List.filter_cons]

theorem filterMap_left (h : f t = none) : (q.filter (· != t)).filterMap f = q.filterMap f := by
  have hkeep : ∀ x, f t = some x → (fun _ => true) x = false := by
    intro x hx
    cases h.symm.trans hx
  have hall := filter_left (q := q) hkeep
  rwa [List.filter_true, List.filter_true] at hall

theorem filterMap_others (ht : t ∉ q) (hothers : ∀ u, u ≠ t → g u = f u) :
    q.filterMap g = q.filterMap f := by
  refine List.filterMap_congr fun u hu => hothers u ?_
  rintro rfl
  exact ht hu

theorem not_mem_left : t ∉ q.filter (· != t) := by
  intro ht
  simpa using (List.mem_filter.mp ht).2

end Queues

namespace View

def place (h : View) : Task → Option (Part × Option Nat)
  | .call n => (h.stage n).bind Stage.place
  | _ => none

/-- The line: what is on the wire, and behind it whoever is in the queue. -/
def line (h : View) (out : List Dispatch) : List (Part × Option Nat) :=
  out.filterMap Dispatch.place ++ h.queue.filterMap h.place

/-- Whoever writes is at the head of the queue. -/
def Heads (h : View) : Prop := ∀ n id payload rest deadline purpose,
  h.stage n = some (.working (.carrying id (.writing payload rest)) deadline purpose) →
  h.queue.head? = some (.call n)

/-- Nobody is in the queue twice, only those are in it who have something to do at the writer, and
whoever writes is at its head. -/
structure InLine (h : View) : Prop where
  distinct : h.queue.Nodup
  queued : ∀ n, .call n ∈ h.queue → ∃ stage, h.stage n = some stage ∧ stage.errand.isSome = true
  heads : h.Heads

variable {h k h' : View} {n : Nat} {hs : List Happening} {out : List Dispatch}

variable {next : Option Stage} {stage : Stage} {work : Work} {deadline id : Option Nat}
  {purpose : Purpose} {payload rest : List UInt8} {e : Event}

theorem place_put (hstage : k.stage = h.stage) {t : Task} (ht : t ≠ .call n) :
    (k.put n next).place t = h.place t := by
  cases t with
  | call m =>
    have hm : m ≠ n := fun heq => ht (congrArg Task.call heq)
    change ((k.put n next).stage m).bind Stage.place = (h.stage m).bind Stage.place
    rw [put_stage_of_ne _ _ hm, hstage]
  | _ => rfl

theorem place_put_self :
    (k.put n next).place (.call n) = next.bind Stage.place := by
  change ((k.put n next).stage n).bind Stage.place = _
  rw [put_stage_self]

/-- A call that has the same place as before, or still none, changes nothing about the line. -/
theorem line_put (L : List Dispatch) (hstage : k.stage = h.stage)
    (hplace : next.bind Stage.place = h.place (.call n))
    (hqueue : k.queue = h.queue ∨ h.place (.call n) = none ∧ Queues (.call n) h.queue k.queue) :
    (k.put n next).line L = h.line L := by
  have hsame : (k.put n next).place = h.place := by
    funext t
    by_cases ht : t = .call n
    · rw [ht, place_put_self, hplace]
    · exact place_put hstage ht
  unfold line
  rw [hsame]
  congr 1
  change k.queue.filterMap h.place = h.queue.filterMap h.place
  rcases hqueue with heq | ⟨hnone, heq | heq | heq⟩
  · rw [heq]
  · rw [heq]
  · rw [heq, List.filterMap_append, List.filterMap_cons_none hnone, List.filterMap_nil,
      List.append_nil]
  · rw [heq, filterMap_left hnone]

theorem line_joined {next : Stage} {x : Part × Option Nat} (L : List Dispatch)
    (hstage : k.stage = h.stage) (hout : .call n ∉ h.queue)
    (hqueue : k.queue = h.queue ++ [Task.call n]) (hplace : next.place = some x) :
    (k.put n (some next)).line L = h.line L ++ [x] := by
  have hself : (k.put n (some next)).place (.call n) = some x := place_put_self.trans hplace
  have hothers : h.queue.filterMap (k.put n (some next)).place = h.queue.filterMap h.place :=
    filterMap_others hout fun t ht => place_put hstage ht
  unfold line
  change _ ++ k.queue.filterMap (k.put n (some next)).place = _
  rw [hqueue, List.filterMap_append, hothers, List.filterMap_cons_some hself, List.filterMap_nil,
    List.append_assoc]

theorem line_written {d : Dispatch} (L : List Dispatch) (hstage : k.stage = h.stage) (hl : h.InLine)
    (hhead : h.queue.head? = some (.call n)) (hqueue : k.queue = h.queue.filter (· != .call n))
    (hd : d.place = h.place (.call n)) :
    (k.put n next).line (L ++ [d]) = h.line L := by
  obtain ⟨rest, hrest⟩ := List.head?_eq_some_iff.mp hhead
  have hdistinct := hl.distinct
  rw [hrest] at hdistinct
  obtain ⟨hnot, -⟩ := List.nodup_cons.mp hdistinct
  have hleft : h.queue.filter (· != .call n) = rest := by
    rw [hrest, List.filter_cons_of_neg (by simp)]
    refine List.filter_eq_self.mpr fun u hu => ?_
    have hne : u ≠ .call n := by
      rintro rfl
      exact hnot hu
    simpa using hne
  have hothers : rest.filterMap (k.put n next).place = rest.filterMap h.place :=
    filterMap_others hnot fun t ht => place_put hstage ht
  unfold line
  change _ ++ k.queue.filterMap (k.put n next).place = _
  rw [hqueue, hleft, hothers, hrest, List.filterMap_append, List.append_assoc]
  congr 1
  cases hplace : h.place (.call n) with
  | none =>
    rw [List.filterMap_cons_none hplace, List.filterMap_cons_none (hd.trans hplace)]
    rfl
  | some x =>
    rw [List.filterMap_cons_some hplace, List.filterMap_cons_some (hd.trans hplace)]
    rfl

theorem line_left (L : List Dispatch) (hstage : k.stage = h.stage)
    (hqueue : k.queue = h.queue.filter (· != .call n)) (p : Part × Option Nat → Bool)
    (hp : ∀ x, h.place (.call n) = some x → p x = false) :
    ((k.put n next).line L).Sublist (h.line L) ∧
      ((k.put n next).line L).filter p = (h.line L).filter p := by
  have hothers : k.queue.filterMap (k.put n next).place = k.queue.filterMap h.place := by
    refine filterMap_others ?_ fun t ht => place_put hstage ht
    rw [hqueue]
    exact not_mem_left
  unfold line
  change (_ ++ k.queue.filterMap (k.put n next).place).Sublist _ ∧
    (_ ++ k.queue.filterMap (k.put n next).place).filter p = _
  rw [hothers, hqueue]
  constructor
  · exact (List.Sublist.refl _).append ((List.filter_sublist).filterMap _)
  · rw [List.filter_append, List.filter_append, filter_left hp]

theorem place_of_stage (hn : h.stage n = some stage) :
    h.place (.call n) = stage.place := by
  change (h.stage n).bind Stage.place = _
  rw [hn]
  rfl

theorem InLine.not_mem (hl : h.InLine) (hn : h.stage n = some stage) (hnone : stage.errand = none) :
    .call n ∉ h.queue := by
  intro hmem
  obtain ⟨stage', hn', herrand⟩ := hl.queued n hmem
  obtain rfl := Option.some.inj (hn.symm.trans hn')
  rw [hnone] at herrand
  cases herrand

/-- Work that goes on leaves the line as it is, but for the step that asks for the writer. -/
theorem Works.line {work' : Work} (hw : Works h n work hs out k work' purpose) (hl : h.InLine)
    (hn : h.stage n = some (.working work deadline purpose)) (L : List Dispatch) :
    work'.goesOn = work.goesOn ∧
      (k.put n (some (.working work' deadline purpose))).line (L ++ out) = h.line L ∨
    ∃ id payload, work = .carrying id (.fresh payload) ∧ work' = .carrying id (.queued payload) ∧
      k.next = h.next ∧ (k.put n (some (.working work' deadline purpose))).line (L ++ out) =
        h.line L ++ [(purpose.part, id)] := by
  have hplace := place_of_stage hn
  cases hw with
  | registers | tests hup =>
    refine .inl ⟨rfl, ?_⟩
    rw [List.append_nil]
    exact line_put L rfl hplace.symm (.inl rfl)
  | @joins id payload =>
    refine .inr ⟨id, payload, rfl, rfl, rfl, ?_⟩
    rw [List.append_nil]
    refine line_joined L rfl (hl.not_mem hn ?_) rfl (Stage.place_carrying ..)
    cases id <;> rfl
  | @takes id payload purpose hhead hwriter =>
    refine .inl ⟨by cases id <;> rfl, ?_⟩
    rw [List.append_nil]
    refine line_put L rfl ?_ (.inl rfl)
    rw [hplace, Stage.place_carrying]
    exact Stage.place_carrying ..
  | written =>
    exact .inl ⟨rfl, line_written L rfl hl (hl.heads n (some _) _ _ _ _ hn) rfl hplace.symm⟩

/-- Work that comes to a result leaves the line as it is, unless it was in line and the writer is
gone. -/
theorem Ends.line {result : Except SessionError Json} {next : Stage}
    (he : Ends h n work hs out k result purpose) (hl : h.InLine)
    (hn : h.stage n = some (.working work deadline purpose)) (hnext : next.place = none)
    (L : List Dispatch) :
    (k.put n (some next)).line (L ++ out) = h.line L ∨
      k = h.leave (.call n) ∧ out = [] ∧
        ∃ id, (Stage.working work deadline purpose).place = some (purpose.part, id) := by
  have hplace := place_of_stage hn
  cases he with
  | hungUp hup | replied =>
    left
    rw [List.append_nil]
    exact line_put L rfl (hnext.trans hplace.symm) (.inr ⟨hplace, .inr (.inr rfl)⟩)
  | gone id hhead hwriter => exact .inr ⟨rfl, rfl, id, Stage.place_carrying ..⟩
  | written =>
    exact .inl (line_written L rfl hl (hl.heads n none _ _ _ _ hn) rfl hplace.symm)

theorem Moves.line_idle {next : Stage} (hm : Moves h n stage hs out k next)
    (hn : h.stage n = some stage) (hstage : stage.place = none) (hnext : next.place = none)
    (hout : out = []) (L : List Dispatch) :
    (k.put n (some next)).line (L ++ out) = h.line L := by
  have hplace : h.place (.call n) = none := (place_of_stage hn).trans hstage
  rw [hout, List.append_nil]
  exact line_put L hm.around.stage (hnext.trans hplace.symm) (.inr ⟨hplace, hm.queue⟩)

theorem line_refusal {j : Nat} (L : List Dispatch) (hstage : k.stage = h.stage)
    (hqueue : Queues (.refusal j) h.queue k.queue) (hout : out.filterMap Dispatch.place = []) :
    k.line (L ++ out) = h.line L := by
  have hsame : k.place = h.place := by
    funext t
    cases t with
    | call m =>
      change (k.stage m).bind Stage.place = _
      rw [hstage]
      rfl
    | _ => rfl
  have hnone : h.place (.refusal j) = none := rfl
  unfold line
  rw [hsame, List.filterMap_append, hout, List.append_nil]
  rcases hqueue with heq | heq | heq
  · rw [heq]
  · rw [heq, List.filterMap_append, List.filterMap_cons_none hnone, List.filterMap_nil,
      List.append_nil]
  · rw [heq, filterMap_left hnone]

theorem line_called {ask : Ask} (L : List Dispatch) (hn : h.stage n = none) :
    (h.put n (some (.fresh ask))).line L = h.line L := by
  have hplace : h.place (.call n) = none := by
    change (h.stage n).bind Stage.place = none
    rw [hn]
    rfl
  exact line_put L rfl hplace.symm (.inl rfl)

theorem line_poured {rest' : List UInt8} (L : List Dispatch)
    (hn : h.stage n = some (.working (.carrying id (.writing payload rest)) deadline purpose)) :
    (h.put n (some (.working (.carrying id (.writing payload rest')) deadline purpose))).line L =
      h.line L := by
  refine line_put L rfl ?_ (.inl rfl)
  rw [place_of_stage hn, Stage.place_carrying]
  exact Stage.place_carrying ..

/-! ## Whoever writes is at the head

A frame that is finished leaves the queue at its head and joins the wire at its end. That is the
same place in the line, but only because nobody writes behind the head. -/

theorem Queues.head {t u : Task} {q q' : List Task} (hq : Queues t q q') (hu : u ≠ t)
    (hhead : q.head? = some u) : q'.head? = some u := by
  obtain ⟨rest, rfl⟩ := List.head?_eq_some_iff.mp hhead
  rcases hq with rfl | rfl | rfl
  · rfl
  · rfl
  · rw [List.filter_cons_of_pos (by simpa using hu)]
    rfl

theorem Moves.place_next {next : Stage} (hm : Moves h n stage hs out k next) :
    next.place = none ∨ ∃ work work' deadline purpose,
      Works h n work hs out k work' purpose ∧ stage = .working work deadline purpose ∧
        next = .working work' deadline purpose := by
  cases hm with
  | works hw => exact .inr ⟨_, _, _, _, hw, rfl, rfl⟩
  | ends he => exact .inl (Purpose.follows_next ..).place
  | expires hb hlate => exact .inl (Purpose.follows_late ..).place
  | _ => exact .inl rfl

theorem Works.heads {work' : Work} (hw : Works h n work hs out k work' purpose)
    (heq : work' = .carrying id (.writing payload rest)) : k.queue.head? = some (.call n) := by
  cases hw with
  | takes hhead hwriter => exact hhead
  | @joins id' => cases id <;> cases id' <;> cases heq
  | tests hup => cases id <;> cases heq
  | _ => cases id <;> cases heq

theorem Heads.put (hh : h.Heads) (hstage : k.stage = h.stage)
    (hqueue : Queues (.call n) h.queue k.queue)
    (hnext : ∀ id payload rest deadline purpose,
      next = some (.working (.carrying id (.writing payload rest)) deadline purpose) →
      k.queue.head? = some (.call n)) : (k.put n next).Heads := by
  intro m id payload rest deadline purpose hm
  rcases put_stage_eq_some.mp hm with ⟨rfl, heq⟩ | ⟨hne, hm⟩
  · exact hnext id payload rest deadline purpose heq
  · rw [hstage] at hm
    exact hqueue.head (fun heq => hne (Task.call.inj heq)) (hh m id payload rest deadline purpose hm)

theorem not_writing_of_place (h : stage.place = none)
    (heq : some stage = some (.working (.carrying id (.writing payload rest)) deadline purpose)) :
    False := by
  rw [Option.some.inj heq, Stage.place_carrying] at h
  cases h

theorem Heads.step (hh : h.Heads) (hcourse : h.Course e hs out h') : h'.Heads := by
  -- The tasks of refusals are not calls.
  have hrefusal : ∀ {j : Nat} {k : View}, k.stage = h.stage →
      Queues (.refusal j) h.queue k.queue → k.Heads := by
    intro j k hstage hqueue m id payload rest deadline purpose hm
    rw [hstage] at hm
    exact hqueue.head nofun (hh m id payload rest deadline purpose hm)
  cases hcourse with
  | quiet hheard => exact hh
  | elapsed hnow => exact hh
  | reader hread hup => exact hh
  | refusalJoins => exact hrefusal rfl (.inr (.inl rfl))
  | refusalLeaves | refusalWritten => exact hrefusal rfl (.inr (.inr rfl))
  | called hn => exact hh.put rfl (.inl rfl) fun _ _ _ _ _ heq => by cases heq
  | dropped hn => exact hh.put rfl (.inr (.inr rfl)) fun _ _ _ _ _ heq => by cases heq
  | moved hn hm =>
    refine hh.put hm.around.stage hm.queue fun id payload rest deadline purpose heq => ?_
    rcases hm.place_next with hnone | ⟨work, work', deadline', purpose', hw, rfl, rfl⟩
    · exact (not_writing_of_place hnone heq).elim
    · exact hw.heads (Stage.working.inj (Option.some.inj heq)).1
  | poured id hn => exact hh.put rfl (.inl rfl) fun _ _ _ _ _ _ => hh _ id _ _ _ _ hn
  | refused id hn =>
    exact hh.put rfl (.inr (.inr rfl)) fun _ _ _ _ _ heq =>
      (not_writing_of_place (Purpose.follows_next ..).place heq).elim

/-! ## Numbers

Numbers are given in the order of registration. Where the writer is had in the order of requests,
they come to the line in that order too, and stay so. -/

/-- The line loses a place at most, or a call joins it. -/
theorem Course.line (hcourse : h.Course e hs out h') (hl : h.InLine) (L : List Dispatch) :
    (h'.line (L ++ out)).Sublist (h.line L) ∨ ∃ n id payload deadline purpose,
      e = .step (.call n) ∧
      h.stage n = some (.working (.carrying id (.fresh payload)) deadline purpose) ∧
      h'.stage n = some (.working (.carrying id (.queued payload)) deadline purpose) ∧
      h'.next = h.next ∧ h'.line (L ++ out) = h.line L ++ [(purpose.part, id)] := by
  have hleft : ∀ {n : Nat} {k : View} {next : Option Stage}, k.stage = h.stage →
      k.queue = h.queue.filter (· != .call n) →
      ((k.put n next).line (L ++ [])).Sublist (h.line L) := by
    intro n k next hstage hqueue
    rw [List.append_nil]
    exact (line_left L hstage hqueue (fun _ => false) fun _ _ => rfl).1
  have hsame : ∀ {l : List (Part × Option Nat)}, l = h.line L → l.Sublist (h.line L) := by
    rintro l rfl
    exact List.Sublist.refl _
  cases hcourse with
  | quiet hheard => exact .inl (hsame (by rw [List.append_nil]))
  | elapsed hnow | reader hread hup => exact .inl (hsame (by rw [List.append_nil]; rfl))
  | refusalJoins => exact .inl (hsame (line_refusal L rfl (.inr (.inl rfl)) rfl))
  | refusalLeaves | refusalWritten => exact .inl (hsame (line_refusal L rfl (.inr (.inr rfl)) rfl))
  | called hn =>
    refine .inl (hsame ?_)
    rw [List.append_nil]
    exact line_called L hn
  | dropped hn => exact .inl (hleft rfl rfl)
  | moved hn hm =>
    have hidle := hm.line_idle hn
    cases hm with
    | works hw =>
      rcases hw.line hl hn L with ⟨-, heq⟩ | ⟨id, payload, rfl, rfl, hnext, heq⟩
      · exact .inl (hsame heq)
      · exact .inr ⟨_, id, payload, _, _, rfl, hn, put_stage_self .., hnext, heq⟩
    | @ends work hs out k result deadline purpose he =>
      obtain ⟨state, introduction, hsettle⟩ := settle_eq k purpose result
      rw [hsettle]
      rcases he.line hl hn (purpose.follows_next h.reads deadline result).place L with
        heq | ⟨rfl, rfl, -⟩
      · exact .inl (hsame heq)
      · exact .inl (hleft rfl rfl)
    | expires hb hlate => exact .inl (hleft rfl rfl)
    | _ => exact .inl (hsame (hidle rfl rfl rfl L))
  | poured id hn =>
    refine .inl (hsame ?_)
    rw [List.append_nil]
    exact line_poured L hn
  | refused id hn => exact .inl (hleft rfl rfl)

theorem Moves.number {next : Stage} {id : Nat} (hm : Moves h n stage hs out k next)
    (hid : next.number = some id) :
    stage.number = some id ∨ id = h.next ∧ k.next = h.next + 1 := by
  cases hm with
  | works hw =>
    cases hw with
    | registers => exact .inr ⟨(Option.some.inj hid).symm, rfl⟩
    | tests hup => exact .inl hid
    | @joins id' => cases id' <;> cases hid
    | @takes id' => cases id' <;> cases hid
    | written => cases hid
  | ends he =>
    rw [(Purpose.follows_next ..).number] at hid
    cases hid
  | expires hb hlate =>
    rw [(Purpose.follows_late ..).number] at hid
    cases hid
  | _ => cases hid

theorem mem_numbers_concat {line : List (Part × Option Nat)} {part : Part} {i : Nat} :
    i ∈ (line ++ [(part, id)]).filterMap Prod.snd ↔ i ∈ line.filterMap Prod.snd ∨ id = some i := by
  rw [List.filterMap_append, List.mem_append]
  cases id <;> simp [eq_comm]

theorem Course.numbers (hcourse : h.Course e hs out h') : h.next ≤ h'.next ∧
    ∀ m stage' id, h'.stage m = some stage' → stage'.number = some id →
      (∃ stage, h.stage m = some stage ∧ stage.number = some id) ∨
        id = h.next ∧ h'.next = h.next + 1 ∧ e = .step (.call m) := by
  have hput : ∀ {n : Nat} {k : View} {next : Option Stage}, k.stage = h.stage →
      (∀ stage id, next = some stage → stage.number = some id →
        (∃ stage, h.stage n = some stage ∧ stage.number = some id) ∨
          id = h.next ∧ k.next = h.next + 1 ∧ e = .step (.call n)) →
      ∀ m stage' id, (k.put n next).stage m = some stage' → stage'.number = some id →
        (∃ stage, h.stage m = some stage ∧ stage.number = some id) ∨
          id = h.next ∧ k.next = h.next + 1 ∧ e = .step (.call m) := by
    intro n k next hstage hnext m stage' id hm hid
    rcases put_stage_eq_some.mp hm with ⟨rfl, heq⟩ | ⟨-, hm⟩
    · exact hnext stage' id heq hid
    · exact .inl ⟨stage', hstage ▸ hm, hid⟩
  cases hcourse with
  | called hn =>
    refine ⟨Nat.le_refl _, hput rfl fun stage id heq hid => ?_⟩
    obtain rfl := Option.some.inj heq
    cases hid
  | dropped hn => exact ⟨Nat.le_refl _, hput rfl fun stage id heq hid => by cases heq⟩
  | moved hn hm =>
    refine ⟨hm.around.next, hput hm.around.stage fun stage id heq hid => ?_⟩
    obtain rfl := Option.some.inj heq
    rcases hm.number hid with hid | ⟨hnew, hnext⟩
    · exact .inl ⟨_, hn, hid⟩
    · exact .inr ⟨hnew, hnext, rfl⟩
  | poured id' hn =>
    refine ⟨Nat.le_refl _, hput rfl fun stage id heq hid => ?_⟩
    obtain rfl := Option.some.inj heq
    cases id' <;> cases hid
  | refused id' hn =>
    refine ⟨Nat.le_refl _, hput rfl fun stage id heq hid => ?_⟩
    obtain rfl := Option.some.inj heq
    rw [(Purpose.follows_next ..).number] at hid
    cases hid
  | _ => exact ⟨Nat.le_refl _, fun m stage' id hm hid => .inl ⟨stage', hm, hid⟩⟩

/-- Whoever asks for the writer leaves nobody behind whose request came before. -/
def InTurn (h : View) (e : Event) : Prop := ∀ n a, h.stage n = some a → e = .step (.call n) →
  a.knocks = true → ∀ m b, h.stage m = some b → ¬ b.Sooner a

/-- The numbers in a line increase, and those that are on their way to it come behind them. -/
structure Counted (line : List (Part × Option Nat)) (h : View) : Prop where
  increasing : (line.filterMap Prod.snd).Pairwise (· < ·)
  past : ∀ id ∈ line.filterMap Prod.snd, id < h.next
  ahead : ∀ n stage id, h.stage n = some stage → stage.number = some id →
    id < h.next ∧ ∀ id' ∈ line.filterMap Prod.snd, id' < id
  distinct : ∀ m n a b id, h.stage m = some a → h.stage n = some b → a.number = some id →
    b.number = some id → m = n
  first : ∀ id, (.opening, id) ∈ line → id = some 1

namespace Counted

variable {e : Event} {L : List Dispatch} {line : List (Part × Option Nat)}

theorem distinct_step (hc : Counted line h) (hcourse : h.Course e hs out h') :
    ∀ m n a b id, h'.stage m = some a → h'.stage n = some b → a.number = some id →
      b.number = some id → m = n := by
  obtain ⟨-, hnumbers⟩ := hcourse.numbers
  intro m n a b id hm hn ha hb
  rcases hnumbers m a id hm ha with ⟨a₀, hm₀, ha₀⟩ | ⟨hnew, -, he⟩ <;>
    rcases hnumbers n b id hn hb with ⟨b₀, hn₀, hb₀⟩ | ⟨hnew', -, he'⟩
  · exact hc.distinct m n a₀ b₀ id hm₀ hn₀ ha₀ hb₀
  · exact absurd hnew' (Nat.ne_of_lt (hc.ahead m a₀ id hm₀ ha₀).1)
  · exact absurd hnew (Nat.ne_of_lt (hc.ahead n b₀ id hn₀ hb₀).1)
  · exact Task.call.inj (Event.step.inj (he.symm.trans he'))

theorem step (hc : Counted (h.line L) h) (hcourse : h.Course e hs out h') (hl : h.InLine)
    (hturn : h.InTurn e)
    (hfirst : ∀ n id payload deadline,
      h.stage n = some (.working (.carrying id (.fresh payload)) deadline .introduce) →
      id = some 1) :
    Counted (h'.line (L ++ out)) h' := by
  obtain ⟨hnext, hnumbers⟩ := hcourse.numbers
  have hdistinct := hc.distinct_step hcourse
  rcases hcourse.line hl L with hsub |
    ⟨n, id, payload, deadline, purpose, rfl, hn, hn', hsame, heq⟩
  · have hids := hsub.filterMap Prod.snd
    refine ⟨hc.increasing.sublist hids, fun id hid => ?_, fun m stage id hm hid => ?_, hdistinct,
      fun id hid => hc.first id (hsub.subset hid)⟩
    · exact Nat.lt_of_lt_of_le (hc.past id (hids.subset hid)) hnext
    · rcases hnumbers m stage id hm hid with ⟨stage₀, hm₀, hid₀⟩ | ⟨rfl, hnew, -⟩
      · obtain ⟨hlt, hall⟩ := hc.ahead m stage₀ id hm₀ hid₀
        exact ⟨Nat.lt_of_lt_of_le hlt hnext, fun id' hid' => hall id' (hids.subset hid')⟩
      · refine ⟨?_, fun id' hid' => hc.past id' (hids.subset hid')⟩
        rw [hnew]
        exact Nat.lt_succ_self _
  · -- Whoever still has a number in hand has a larger one than the call that joins the line.
    have hown : ∀ i, id = some i → i < h.next ∧ ∀ i' ∈ (h.line L).filterMap Prod.snd, i' < i := by
      rintro i rfl
      exact hc.ahead n _ i hn rfl
    have hothers : ∀ m stage i, h'.stage m = some stage → stage.number = some i →
        i < h.next ∧ (∀ i' ∈ (h.line L).filterMap Prod.snd, i' < i) ∧ ∀ j, id = some j → j < i := by
      intro m stage i hm hi
      rcases hnumbers m stage i hm hi with ⟨stage₀, hm₀, hi₀⟩ | ⟨-, hnew, -⟩
      · obtain ⟨hlt, hall⟩ := hc.ahead m stage₀ i hm₀ hi₀
        refine ⟨hlt, hall, ?_⟩
        rintro j rfl
        have hle : ¬ i < j := fun hij =>
          hturn n _ hn rfl (Stage.knocks_carrying ..) m stage₀ hm₀ (.inl ⟨i, hi₀, j, rfl, hij⟩)
        refine Nat.lt_of_le_of_ne (Nat.not_lt.mp hle) ?_
        rintro rfl
        obtain rfl := hc.distinct m n stage₀ _ j hm₀ hn hi₀ rfl
        obtain rfl := Option.some.inj (hn'.symm.trans hm)
        cases hi
      · rw [hsame] at hnew
        exact absurd hnew (Nat.ne_of_lt (Nat.lt_succ_self _))
    rw [heq]
    refine ⟨?_, fun i hi => ?_, fun m stage i hm hi => ?_, hdistinct, fun i hi => ?_⟩
    · cases id with
      | none => simpa using hc.increasing
      | some i =>
        rw [List.filterMap_append, List.pairwise_append]
        refine ⟨hc.increasing, List.pairwise_singleton _ _, fun a ha b hb => ?_⟩
        obtain rfl := List.mem_singleton.mp hb
        exact (hown b rfl).2 a ha
    · rw [hsame]
      rcases mem_numbers_concat.mp hi with hi | rfl
      · exact hc.past i hi
      · exact (hown i rfl).1
    · obtain ⟨hlt, hall, hjoined⟩ := hothers m stage i hm hi
      refine ⟨hsame ▸ hlt, fun i' hi' => ?_⟩
      rcases mem_numbers_concat.mp hi' with hi' | rfl
      · exact hall i' hi'
      · exact hjoined i' rfl
    · rcases List.mem_append.mp hi with hi | hi
      · exact hc.first i hi
      · obtain ⟨hpart, rfl⟩ := Prod.mk.inj (List.mem_singleton.mp hi)
        cases purpose with
        | introduce => exact hfirst n i payload deadline hn
        | _ => cases hpart

end Counted

end View

variable {s : Session}

theorem Lined.inLine (hl : Lined s) (hh : s.view.Heads) : s.view.InLine := by
  refine ⟨hl.distinct, fun n hmem => ?_, hh⟩
  have herrand := (hl.queued _).mp hmem
  cases hn : s.stageOf n with
  | none =>
    rw [errand, hn] at herrand
    cases herrand
  | some stage =>
    rw [errand, hn] at herrand
    exact ⟨stage, hn, herrand⟩

end Session

end LanguageClient
