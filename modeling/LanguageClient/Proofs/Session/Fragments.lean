import LanguageClient.Proofs.Frame.Framed
import LanguageClient.Proofs.Session.WireSteps
import LanguageClient.Proofs.Session.Visits

/-!
# What is on the wire, frame by frame

A frame gets on the wire piece by piece, as the stream takes it. What has got there is a *fragment* of
the frame. If the task that writes it comes to its end the fragment is the whole frame; if the task is
broken off, the fragment stays as it is, and the next task writes right behind it.

The wire consists of the fragments of a run, one after the other (`HeadWrites.wire_run`). A frame is
broken off exactly if its task is broken off while the frame is on the wire in part
(`HeadWrites.cuts_iff`), and a frame stands behind a broken one exactly if more was put on the wire
afterwards (`HeadWrites.pairwise_iff`). Where that does not happen the wire is framed.
-/

namespace LanguageClient

structure Fragment where
  payload : List UInt8
  octets : List UInt8
  isPart : octets <+: Frame.encode payload

namespace Fragment

def isWhole (k : Fragment) : Bool := k.octets == Frame.encode k.payload

def isPartial (k : Fragment) : Bool := !k.octets.isEmpty && !k.isWhole

/-- One fragment may come before another: nothing is written behind a frame that is not complete. -/
def Before (a b : Fragment) : Prop := a.isPartial = true → b.octets = []

def wholes (fragments : List Fragment) : List (List UInt8) := (fragments.filter isWhole).map payload

/-- The fragment of a frame of which some octets are left to be written. -/
def upTo (payload rest : List UInt8) : Fragment :=
  ⟨payload, (Frame.encode payload).take ((Frame.encode payload).length - rest.length),
    List.take_prefix ..⟩

theorem octets_upTo {payload done rest : List UInt8} (h : done ++ rest = Frame.encode payload) :
    (upTo payload rest).octets = done := by
  change (Frame.encode payload).take _ = done
  rw [← h, List.length_append, Nat.add_sub_cancel]
  exact List.take_left

theorem octets_upTo_encode (payload : List UInt8) :
    (upTo payload (Frame.encode payload)).octets = [] := octets_upTo rfl

theorem isWhole_upTo_nil (payload : List UInt8) : (upTo payload []).isWhole = true :=
  beq_iff_eq.mpr (octets_upTo (List.append_nil _))

theorem octets_upTo_drop {payload rest : List UInt8} (h : rest <:+ Frame.encode payload)
    (count : Nat) :
    (upTo payload (rest.drop count)).octets = (upTo payload rest).octets ++ rest.take count := by
  obtain ⟨done, hdone⟩ := h
  rw [octets_upTo hdone]
  refine octets_upTo ?_
  rw [List.append_assoc, List.take_append_drop, hdone]

theorem framed_of_pairwise {fragments : List Fragment} (h : fragments.Pairwise Before) :
    Frame.Framed (fragments.flatMap octets) := by
  induction fragments with
  | nil => exact Frame.framed_of_prefix (List.nil_prefix : [] <+: Frame.encode [])
  | cons k fragments ih =>
    obtain ⟨hbefore, hrest⟩ := List.pairwise_cons.mp h
    rw [List.flatMap_cons]
    cases hpartial : k.isPartial with
    | true =>
      have hnil : fragments.flatMap octets = [] :=
        List.flatMap_eq_nil_iff.mpr fun a ha => hbefore a ha hpartial
      rw [hnil, List.append_nil]
      exact Frame.framed_of_prefix k.isPart
    | false =>
      cases hwhole : k.isWhole with
      | true =>
        rw [beq_iff_eq.mp hwhole]
        exact Frame.framed_append_iff.mpr (ih hrest)
      | false =>
        have hnone : k.octets = [] := by
          rw [isPartial, hwhole] at hpartial
          simpa using hpartial
        rw [hnone, List.nil_append]
        exact ih hrest

end Fragment

namespace Session

variable {s : Session} {e : Event} {n : Nat}

/-! ## The fragments of a run

Only the head of the queue writes, so at most one frame is unfinished. It is counted when nobody
writes it any more. -/

def unfinished (s : Session) : Option Fragment :=
  (s.queue.head?.bind s.pen).map fun x => .upTo x.1 x.2

/-- The frame that nobody is writing any more when an event has happened. -/
def left (s : Session) (e : Event) : List Fragment :=
  if (s.apply e).unfinished.isNone then s.unfinished.toList else []

def fragments (s : Session) : List Event → List Fragment
  | [] => s.unfinished.toList
  | e :: events => s.left e ++ (s.apply e).fragments events

/-- A frame is broken off in the middle. -/
def cuts (s : Session) (e : Event) : Bool := (s.left e).any Fragment.isPartial

/-- A frame is broken off in the middle, and more is put on the wire afterwards. -/
def resumed (s : Session) : List Event → Bool
  | [] => false
  | e :: events =>
    (s.cuts e && ((s.apply e).run events).wire != (s.apply e).wire) || (s.apply e).resumed events

variable {t : Task} {payload rest : List UInt8}

theorem HeadWrites.unfinished_eq (hi : HeadWrites s) (h : s.pen t = some (payload, rest)) :
    s.unfinished = some (.upTo payload rest) := by
  rw [unfinished, hi.holder h, Option.bind_some, h]
  rfl

theorem unfinished_eq_none (h : ∀ t, s.queue.head? = some t → s.pen t = none) :
    s.unfinished = none := by
  cases hhead : s.queue.head? with
  | none => rw [unfinished, hhead]; rfl
  | some t => rw [unfinished, hhead, Option.bind_some, h t hhead]; rfl

theorem exists_pen {k : Fragment} (h : s.unfinished = some k) : ∃ t payload rest,
    s.queue.head? = some t ∧ s.pen t = some (payload, rest) ∧ k = .upTo payload rest := by
  obtain ⟨⟨payload, rest⟩, hpen, rfl⟩ := Option.map_eq_some_iff.mp h
  obtain ⟨t, hhead, hpen⟩ := Option.bind_eq_some_iff.mp hpen
  exact ⟨t, payload, rest, hhead, hpen, rfl⟩

theorem HeadWrites.unfinished_congr {s' : Session} (hi : HeadWrites s) (hi' : HeadWrites s')
    (h : ∀ u, s'.pen u = s.pen u) : s'.unfinished = s.unfinished := by
  cases hk : s.unfinished with
  | some k =>
    obtain ⟨t, payload, rest, -, hpen, rfl⟩ := exists_pen hk
    exact hi'.unfinished_eq ((h t).trans hpen)
  | none =>
    refine unfinished_eq_none fun t _ => (h t).trans ?_
    cases hpen : s.pen t with
    | none => rfl
    | some x =>
      rw [hi.unfinished_eq hpen] at hk
      cases hk

theorem left_of_some {k : Fragment} (h : (s.apply e).unfinished = some k) : s.left e = [] := by
  rw [left, h]
  rfl

theorem left_of_none (h : (s.apply e).unfinished = none) : s.left e = s.unfinished.toList := by
  rw [left, h]
  rfl

theorem left_of_same (h : (s.apply e).unfinished = s.unfinished) : s.left e = [] := by
  cases hk : s.unfinished with
  | none => rw [left_of_none (h.trans hk), hk]; rfl
  | some k => exact left_of_some (h.trans hk)

/-- What an event does to the frame that is being written. -/
inductive Marks (s : Session) (e : Event) : Prop where
  | stays (hout : (s.apply e).outgoing = s.outgoing)
      (hsame : (s.apply e).unfinished = s.unfinished)
  | begins {payload : List UInt8} (hout : (s.apply e).outgoing = s.outgoing)
      (hbefore : s.unfinished = none)
      (hafter : (s.apply e).unfinished = some (.upTo payload (Frame.encode payload)))
  | pours {payload rest : List UInt8} (count : Nat) (hpart : rest <:+ Frame.encode payload)
      (hout : (s.apply e).outgoing = (s.wire ++ rest.take count, s.sent))
      (hbefore : s.unfinished = some (.upTo payload rest))
      (hafter : (s.apply e).unfinished = some (.upTo payload (rest.drop count)))
  | lifts {t : Task} {payload rest : List UInt8} (hwire : (s.apply e).wire = s.wire)
      (hsent : (s.apply e).sent = s.sent ∨ rest = [] ∧ (s.apply e).sent = s.sent ++ [payload])
      (hcause : rest = [] ∨ BreaksOff s t e) (hhead : s.queue.head? = some t)
      (hbefore : s.unfinished = some (.upTo payload rest))
      (hafter : (s.apply e).unfinished = none)

theorem HeadWrites.marks (hi : HeadWrites s) (e : Event) : Marks s e := by
  have hi' := hi.apply e
  cases hi.wireStep e with
  | stays hout hall => exact .stays hout (hi.unfinished_congr hi' hall)
  | begins hout hhead hbefore hafter hother =>
    refine .begins hout (unfinished_eq_none fun u hu => ?_) (hi'.unfinished_eq hafter)
    rwa [Option.some.inj (hu.symm.trans hhead)]
  | pours count hout hbefore hafter hother =>
    exact .pours count (hi.part hbefore) hout (hi.unfinished_eq hbefore) (hi'.unfinished_eq hafter)
  | @lifts t payload rest hwire hsent hcause hbefore hafter hother =>
    refine .lifts hwire hsent hcause (hi.holder hbefore) (hi.unfinished_eq hbefore)
      (unfinished_eq_none fun u _ => ?_)
    by_cases hu : u = t
    · rw [hu, hafter]
    · rw [hother u hu, hi.pen_ne hbefore hu]

open Fragment in
theorem Marks.wire (h : Marks s e) {stem : List UInt8}
    (hs : s.wire = stem ++ s.unfinished.toList.flatMap octets) :
    (s.apply e).wire = stem ++ (s.left e).flatMap octets ++
      (s.apply e).unfinished.toList.flatMap octets := by
  cases h with
  | stays hout hsame =>
    rw [left_of_same hsame, hsame, List.flatMap_nil, List.append_nil, ← hs]
    exact congrArg Prod.fst hout
  | begins hout hbefore hafter =>
    have hwire : (s.apply e).wire = s.wire := congrArg Prod.fst hout
    rw [left_of_some hafter, hafter, hwire, hs, hbefore]
    simp [octets_upTo_encode]
  | pours count hpart hout hbefore hafter =>
    have hwire := congrArg Prod.fst hout
    change (s.apply e).wire = s.wire ++ _ at hwire
    rw [left_of_some hafter, hafter, hwire, hs, hbefore]
    simp [octets_upTo_drop hpart]
  | lifts hwire hsent hcause hhead hbefore hafter =>
    rw [left_of_none hafter, hafter, hwire, hs]
    simp

theorem Marks.sent (h : Marks s e) : ∃ more, (s.apply e).sent = s.sent ++ more ∧
    more.Sublist (Fragment.wholes (s.left e)) := by
  have hnone : (s.apply e).sent = s.sent → ∃ more, (s.apply e).sent = s.sent ++ more ∧
      more.Sublist (Fragment.wholes (s.left e)) :=
    fun hsame => ⟨[], hsame.trans (List.append_nil _).symm, List.nil_sublist _⟩
  cases h with
  | stays hout hsame | begins hout hbefore hafter | pours count hpart hout hbefore hafter =>
    exact hnone (congrArg Prod.snd hout)
  | @lifts t payload rest hwire hsent hcause hhead hbefore hafter =>
    rcases hsent with hsame | ⟨rfl, hmore⟩
    · exact hnone hsame
    · refine ⟨[payload], hmore, ?_⟩
      have hwhole : Fragment.wholes [.upTo payload []] = [payload] := by
        rw [Fragment.wholes, List.filter_cons_of_pos (Fragment.isWhole_upTo_nil payload)]
        rfl
      rw [left_of_none hafter, hbefore, Option.toList_some, hwhole]

open Fragment in
theorem HeadWrites.wire_run (hi : HeadWrites s) {stem : List UInt8}
    (hs : s.wire = stem ++ s.unfinished.toList.flatMap octets) (events : List Event) :
    (s.run events).wire = stem ++ (s.fragments events).flatMap octets := by
  induction events generalizing s stem with
  | nil => exact hs
  | cons e events ih =>
    rw [fragments, List.flatMap_append, ← List.append_assoc]
    exact ih (hi.apply e) ((hi.marks e).wire hs)

theorem HeadWrites.wire_behind (hi : HeadWrites s) (hnone : s.unfinished = none) (events : List Event) :
    (s.run events).wire = s.wire ++ (s.fragments events).flatMap Fragment.octets :=
  hi.wire_run (by rw [hnone]; exact (List.append_nil _).symm) events

theorem HeadWrites.sent_run (hi : HeadWrites s) (events : List Event) : ∃ more,
    (s.run events).sent = s.sent ++ more ∧ more.Sublist (Fragment.wholes (s.fragments events)) := by
  induction events generalizing s with
  | nil => exact ⟨[], (List.append_nil _).symm, List.nil_sublist _⟩
  | cons e events ih =>
    obtain ⟨now, hnow, hsub⟩ := (hi.marks e).sent
    obtain ⟨later, hlater, hsub'⟩ := ih (hi.apply e)
    refine ⟨now ++ later, ?_, ?_⟩
    · rw [← List.append_assoc, ← hnow]
      exact hlater
    · rw [fragments, Fragment.wholes, List.filter_append, List.map_append]
      exact hsub.append hsub'

/-! ## Frames that are broken off -/

theorem left_cases (s : Session) (e : Event) :
    s.left e = [] ∨ ∃ k, s.left e = [k] ∧ (s.apply e).unfinished = none := by
  cases hafter : (s.apply e).unfinished with
  | some k => exact .inl (left_of_some hafter)
  | none =>
    rw [left_of_none hafter]
    cases s.unfinished with
    | none => exact .inl rfl
    | some k => exact .inr ⟨k, rfl, rfl⟩

/-- Frames are in order exactly if nothing is written behind one that was broken off. -/
theorem HeadWrites.pairwise_iff (hi : HeadWrites s) (events : List Event) :
    (s.fragments events).Pairwise Fragment.Before ↔ s.resumed events = false := by
  induction events generalizing s with
  | nil =>
    refine ⟨fun _ => rfl, fun _ => ?_⟩
    rw [fragments]
    cases s.unfinished <;> simp
  | cons e events ih =>
    rw [fragments, resumed, Bool.or_eq_false_iff, ← ih (hi.apply e), cuts]
    rcases left_cases s e with hnil | ⟨k, hk, hnone⟩
    · rw [hnil]
      simp
    · -- Nobody is writing now, so what is on the wire later is what comes behind the frame.
      have hgrows : ((s.apply e).run events).wire = (s.apply e).wire ↔
          ∀ b ∈ (s.apply e).fragments events, b.octets = [] := by
        rw [(hi.apply e).wire_behind hnone, List.append_right_eq_self, List.flatMap_eq_nil_iff]
      rw [hk, List.singleton_append, List.pairwise_cons]
      refine and_congr_left fun _ => ?_
      cases hpartial : k.isPartial <;> simp [Fragment.Before, hpartial, hgrows]

theorem BreaksOff.isOf (h : BreaksOff s t e) : e.isOf t = true := by
  cases h <;> exact beq_self_eq_true _

/-- A call that writes does so for an exchange or for a message, and a step of it waits for the
stream to take what is left. -/
theorem exists_work (h : s.pen (.call n) = some (payload, rest)) :
    ∃ work deadline purpose mailbox, s.At n (.working work deadline purpose) mailbox ∧
      (rest ≠ [] → s.workStep n mailbox work = .blocked) := by
  have hblocked : rest ≠ [] → s.sendStep (.call n) (.writing payload rest) = .blocked := by
    intro hrest
    obtain ⟨b, rest, rfl⟩ := List.exists_cons_of_ne_nil hrest
    rfl
  obtain ⟨deadline, purpose, mailbox, ⟨id, hc⟩ | hc⟩ := sendingOf_call (sendingOf_of_pen h)
  · exact ⟨_, deadline, purpose, mailbox, hc, fun hrest => by
      rw [workStep, exchangeStep, hblocked hrest]⟩
  · exact ⟨_, deadline, purpose, mailbox, hc, fun hrest => by rw [workStep, hblocked hrest]⟩

theorem BreaksOff.pen_apply (h : BreaksOff s t e) (hpen : s.pen t = some (payload, rest))
    (hrest : rest ≠ []) : (s.apply e).pen t = none := by
  have hsending := sendingOf_of_pen hpen
  cases h with
  | @refused t cause =>
    cases t with
    | reader => cases hpen
    | call n =>
      obtain ⟨work, deadline, purpose, mailbox, hc, -⟩ := exists_work hpen
      have happly : s.apply (.refuse (.call n) cause) =
          (s.dropWork (.call n) work).finishWork n deadline purpose
            (.error (.transport (.io cause))) := by
        simp only [apply, refuse, hsending]
        rw [hc]
      rw [happly]
      exact pen_eq_none (settled_finishWork ..).errand_self
    | refusal n =>
      have hgone : (s.apply (.refuse (.refusal n) cause)).refusals.get? n = none := by
        simp only [apply, refuse, hsending]
        exact Table.get?_erase_self ..
      exact pen_eq_none (errand_of_no_refusal hgone)
  | @dropped n =>
    obtain ⟨work, deadline, purpose, mailbox, hc, -⟩ := exists_work hpen
    have hgone : (s.apply (.drop n)).calls.get? n = none := by
      simp only [apply, dropCall]
      rw [hc]
      exact Table.get?_erase_self ..
    exact pen_eq_none (errand_of_no_call hgone)
  | @late n deadline work purpose hn hlate =>
    obtain ⟨work', deadline', purpose', mailbox, hc, hblocked⟩ := exists_work hpen
    obtain ⟨rfl, rfl, rfl⟩ :=
      Stage.working.inj (Option.some.inj (hn.symm.trans (stageOf_of_get? hc)))
    have happly : s.apply (.step (.call n)) = (s.dropWork (.call n) work).expire n purpose := by
      simp [apply, step, callStep, hc, hblocked hrest, hlate]
    rw [happly]
    exact pen_eq_none (settled_expire ..).errand_self

/-- The frame that is being written is on the wire in part, and the task that writes it is broken
off. -/
def BreaksFrame (s : Session) (e : Event) : Prop := ∃ t k,
    s.queue.head? = some t ∧ s.unfinished = some k ∧ k.isPartial = true ∧ BreaksOff s t e

theorem HeadWrites.cuts_iff (hi : HeadWrites s) (e : Event) : s.cuts e = true ↔ s.BreaksFrame e := by
  constructor
  · intro hcuts
    cases hi.marks e with
    | stays hout hsame => rw [cuts, left_of_same hsame] at hcuts; cases hcuts
    | begins hout hbefore hafter => rw [cuts, left_of_some hafter] at hcuts; cases hcuts
    | pours count hpart hout hbefore hafter =>
      rw [cuts, left_of_some hafter] at hcuts
      cases hcuts
    | @lifts t payload rest hwire hsent hcause hhead hbefore hafter =>
      have hpartial : (Fragment.upTo payload rest).isPartial = true := by
        rw [cuts, left_of_none hafter, hbefore] at hcuts
        simpa using hcuts
      refine ⟨t, _, hhead, hbefore, hpartial, hcause.resolve_left ?_⟩
      rintro rfl
      simp [Fragment.isPartial, Fragment.isWhole_upTo_nil] at hpartial
  · rintro ⟨t, k, hhead, hk, hpartial, hcause⟩
    obtain ⟨t', payload, rest, hhead', hpen, rfl⟩ := exists_pen hk
    obtain rfl := Option.some.inj (hhead.symm.trans hhead')
    have hrest : rest ≠ [] := by
      rintro rfl
      simp [Fragment.isPartial, Fragment.isWhole_upTo_nil] at hpartial
    -- The task lets go of its frame, and no other task had one.
    have hafter : (s.apply e).unfinished = none := by
      refine unfinished_eq_none fun u _ => ?_
      by_cases hu : u = t
      · rw [hu]
        exact hcause.pen_apply hpen hrest
      · rw [(apply_change s e).pen hi.lined.numbered (isOf_ne hcause.isOf hu), hi.pen_ne hpen hu]
    rw [cuts, left_of_none hafter, hk]
    simpa using hpartial

theorem HeadWrites.throughout_cuts_iff (hi : HeadWrites s) (events : List Event) :
    Throughout (fun s e => s.cuts e = true ↔ s.BreaksFrame e) s events := by
  induction events generalizing s with
  | nil => trivial
  | cons e events ih => exact ⟨hi.cuts_iff e, ih (hi.apply e)⟩

structure Outgoing (s : Session) (events : List Event) : Prop where
  /-- The wire holds the fragments of the run, and nothing else. -/
  wire : (s.run events).wire = (s.fragments events).flatMap Fragment.octets
  /-- What has been sent is there in whole frames, in order. -/
  sent : (s.run events).sent.Sublist (Fragment.wholes (s.fragments events))
  /-- A frame is left unfinished exactly if it is on the wire in part when the stream refuses the
  rest, the caller loses interest, or the time is over. -/
  cause : Throughout (fun s e => s.cuts e = true ↔ s.BreaksFrame e) s events
  /-- No frame comes behind one that is not complete, unless more was put on the wire after a frame
  had been left unfinished. -/
  order : (s.fragments events).Pairwise Fragment.Before ↔ s.resumed events = false
  framed : s.resumed events = false → Frame.Framed (s.run events).wire

/-- The wire is framed in every run in which nothing is put on it after a frame has been left
unfinished. -/
theorem wire_framed_unless_resumed (settings : SessionSettings) (filter : DocumentFilter)
    (label : String) (processId now : Nat) (events : List Event) :
    Outgoing (start settings filter label processId now) events := by
  have hi : HeadWrites (start settings filter label processId now) :=
    headWrites_of_empty (lined_start ..) rfl
  have hwire := hi.wire_behind rfl events
  obtain ⟨more, hsent, hmore⟩ := hi.sent_run events
  refine ⟨hwire, hsent ▸ hmore, hi.throughout_cuts_iff events, hi.pairwise_iff events, fun h => ?_⟩
  rw [hwire]
  exact Fragment.framed_of_pairwise ((hi.pairwise_iff events).mpr h)

/-- A caller loses interest in a message of which the stream has taken ten octets. -/
def droppedMessage : List Event :=
  handshake ++ [.call 1 (.notify "ping" none)] ++ List.replicate 4 (.step (.call 1)) ++
    [.accept (.call 1) 10, .drop 1]

/-- The message stays unfinished at the end of the wire. -/
theorem wire_framed_after_dropped_message :
    let s := start {} {} "custom" 0 0
    (s.fragments droppedMessage).any Fragment.isPartial = true ∧ s.resumed droppedMessage = false ∧
      Frame.Framed (s.run droppedMessage).wire :=
  ⟨by decide +kernel, by decide +kernel,
    (wire_framed_unless_resumed {} {} "custom" 0 0 droppedMessage).framed (by decide +kernel)⟩

/-- The stream takes the header of the request to shut down and nothing more until the time for the
answer is over. Then it takes the message that the client leaves. -/
def lateShutdown : List Event :=
  handshake ++ [.call 1 .stop] ++ List.replicate 7 (.step (.call 1)) ++
    [.accept (.call 1) 22, .pass 2000000000, .step (.call 1), .step (.call 1)] ++ writes 1

/-- The server is to take the first octets of the message that the client leaves for the request to
shut down, and the others for the beginning of a frame, which they are not. -/
theorem wire_not_framed_after_late_shutdown :
    let s := start {} {} "custom" 0 0
    s.resumed lateShutdown = true ∧ ¬ Frame.Framed (s.run lateShutdown).wire := by
  intro s
  let exit : List UInt8 := Frame.encode (Rpc.Notification.make "exit" none).payload
  obtain ⟨hresumed, hwire, htail⟩ : s.resumed lateShutdown = true ∧
      (s.run lateShutdown).wire = (s.run handshake).sent.flatMap Frame.encode ++
        (Frame.encode (exit.take 44) ++ exit.drop 44) ∧
      (exit.drop 44).head? = some 0x6F := by
    decide +kernel
  refine ⟨hresumed, fun hframed => ?_⟩
  rw [hwire, Frame.framed_flatMap_append_iff, Frame.framed_append_iff] at hframed
  obtain ⟨rest, hrest⟩ := List.head?_eq_some_iff.mp htail
  rw [hrest] at hframed
  exact absurd hframed.head_eq (by decide)

end Session

end LanguageClient
