import LanguageClient.Proofs.Session.Writer

/-!
# What an event puts on the wire

A task that holds the writer has a frame in hand and a part of it that is left to be written. An
event leaves all that as it is, or a task takes up a new frame, or the stream takes some octets of
the frame, or the task lets go of it (`WireStep`). It lets go because nothing is left, or because it is
broken off: the stream refuses the rest, the caller loses interest, or the time is over. At any
moment there is at most one frame in hand, that of the task at the head of the queue (`HeadWrites`).
-/

namespace LanguageClient

/-! ## Who writes -/

theorem Sending.eq_writing {sending : Sending} {payload rest : List UInt8}
    (h : sending.pen = some (payload, rest)) : sending = .writing payload rest := by
  cases sending with
  | writing payload' rest' =>
    obtain ⟨rfl, rfl⟩ := Prod.mk.inj (Option.some.inj h)
    rfl
  | _ => cases h

namespace Session

inductive WireStep (s : Session) (e : Event) (s' : Session) : Prop where
  | stays (hout : s'.outgoing = s.outgoing) (hall : ∀ u, s'.pen u = s.pen u) : WireStep s e s'
  | begins {t : Task} {payload : List UInt8} (hout : s'.outgoing = s.outgoing)
      (hhead : s.queue.head? = some t) (hbefore : s.pen t = none)
      (hafter : s'.pen t = some (payload, Frame.encode payload))
      (hother : ∀ u, u ≠ t → s'.pen u = s.pen u) : WireStep s e s'
  | pours {t : Task} {payload rest : List UInt8} (count : Nat)
      (hout : s'.outgoing = (s.wire ++ rest.take count, s.sent))
      (hbefore : s.pen t = some (payload, rest))
      (hafter : s'.pen t = some (payload, rest.drop count))
      (hother : ∀ u, u ≠ t → s'.pen u = s.pen u) : WireStep s e s'
  | lifts {t : Task} {payload rest : List UInt8} (hwire : s'.wire = s.wire)
      (hsent : s'.sent = s.sent ∨ rest = [] ∧ s'.sent = s.sent ++ [payload])
      (hcause : rest = [] ∨ BreaksOff s t e) (hbefore : s.pen t = some (payload, rest))
      (hafter : s'.pen t = none) (hother : ∀ u, u ≠ t → s'.pen u = s.pen u) : WireStep s e s'

variable {s s' mid : Session} {e : Event} {n : Nat}

variable {stage : Stage} {t : Task} {payload rest : List UInt8} {sending : Sending}

theorem sendingOf_of_pen (h : s.pen t = some (payload, rest)) :
    s.sendingOf t = some (.writing payload rest) := by
  cases t with
  | reader => cases h
  | call n =>
    obtain ⟨stage, hn, hpen⟩ := Option.bind_eq_some_iff.mp h
    obtain ⟨mailbox, hc⟩ := exists_at hn
    unfold Stage.pen at hpen
    split at hpen
    · rw [sendingOf, hc, Sending.eq_writing hpen]
    · rw [sendingOf, hc, Sending.eq_writing hpen]
    · cases hpen
  | refusal n =>
    obtain ⟨stage, hn, hpen⟩ := Option.bind_eq_some_iff.mp h
    cases stage with
    | fresh request => cases hpen
    | sending send => rw [sendingOf, hn, Sending.eq_writing hpen]

theorem errand_of_pen (h : s.pen t = some (payload, rest)) : s.errand t = some (.writing rest) := by
  have hsending := sendingOf_of_pen h
  cases t with
  | reader => cases h
  | call n =>
    obtain ⟨deadline, purpose, mailbox, ⟨id, hc⟩ | hc⟩ := sendingOf_call hsending
    all_goals exact errand_call (stageOf_of_get? hc)
  | refusal n => exact errand_refusal (sendingOf_refusal hsending)

theorem pen_eq_none (h : s.errand t = none) : s.pen t = none := by
  cases hpen : s.pen t with
  | none => rfl
  | some x =>
    obtain ⟨payload, rest⟩ := x
    rw [errand_of_pen hpen] at h
    cases h

theorem Change.pen {hs : List Happening} (h : Change s e hs s') (hnum : s.Numbered)
    (he : e.isOf t = false) : s'.pen t = s.pen t :=
  congrArg Prod.snd (h.desk hnum he)

/-! ## What gets on the wire by one event

`WireStep` has all that the wire sees of an event. What is on it is shown from this relation alone.
-/

theorem wireStep_stays (hout : s'.outgoing = s.outgoing) (hself : s'.pen t = s.pen t)
    (hother : ∀ u, u ≠ t → s'.pen u = s.pen u) : WireStep s e s' := by
  refine .stays hout fun u => ?_
  by_cases hu : u = t
  · rw [hu, hself]
  · exact hother u hu

theorem AtWriter.wireStep (h : AtWriter s e t s') (hdesk : ∀ u, u ≠ t → s'.desk u = s.desk u) :
    WireStep s e s' := by
  have hother : ∀ u, u ≠ t → s'.pen u = s.pen u := fun u hu => congrArg Prod.snd (hdesk u hu)
  cases h with
  | stays hl hself => exact wireStep_stays (congrArg Prod.snd hl) (congrArg Prod.snd hself) hother
  | @goesOn sending next mid h hl hbefore hafter =>
    have hout : s'.outgoing = mid.outgoing := congrArg Prod.snd hl
    have hpen : s.pen t = sending.pen := congrArg Prod.snd hbefore
    have hpen' : s'.pen t = next.pen := congrArg Prod.snd hafter
    cases h with
    | joins => exact wireStep_stays hout (hpen'.trans hpen.symm) hother
    | takes hw hwriter => exact .begins hout (beq_iff_eq.mp hw) hpen hpen' hother
  | @finishes sending mid result h hl hbefore hafter =>
    have hout : s'.outgoing = mid.outgoing := congrArg Prod.snd hl
    have hpen : s.pen t = sending.pen := congrArg Prod.snd hbefore
    have hpen' : s'.pen t = none := congrArg Prod.snd hafter
    cases h with
    | closed hw hwriter => exact wireStep_stays hout (hpen'.trans hpen.symm) hother
    | written =>
      obtain ⟨hwire, hsent⟩ := Prod.mk.inj hout
      exact .lifts hwire (.inr ⟨rfl, hsent⟩) (.inl rfl) hpen hpen' hother
  | pours count hl hbefore hafter =>
    exact .pours count (congrArg Prod.snd hl) (congrArg Prod.snd hbefore) (congrArg Prod.snd hafter)
      hother
  | @closes n closing mid next ht h hl hbefore hafter =>
    have hout : mid.outgoing = s.outgoing := by
      cases h with
      | abandons => exact congrArg Prod.snd (ledger_abandonPending s)
      | _ => rfl
    exact wireStep_stays ((congrArg Prod.snd hl).trans hout)
      ((congrArg Prod.snd hafter).trans (congrArg Prod.snd hbefore).symm) hother
  | breaks hcause hl hafter =>
    have hout : s'.outgoing = s.outgoing := congrArg Prod.snd hl
    have hpen' : s'.pen t = none := congrArg Prod.snd hafter
    cases hpen : s.pen t with
    | none => exact wireStep_stays hout (hpen'.trans hpen.symm) hother
    | some x =>
      obtain ⟨hwire, hsent⟩ := Prod.mk.inj hout
      exact .lifts hwire (.inl hsent) (.inr hcause) hpen hpen' hother

theorem Change.wireStep {hs : List Happening} (h : Change s e hs s') (hnum : s.Numbered) :
    WireStep s e s' := by
  obtain ⟨t, hother, hat⟩ := h.atWriter hnum
  exact hat.wireStep hother

/-! ## Whoever writes holds the writer -/

theorem Turn.head (h : Turn s s') (hhead : s.queue.head? = some t)
    (hself : (s'.errand t).isSome = true) : s'.queue.head? = some t := by
  cases h with
  | stays hq hall => rw [hq, hhead]
  | joins hnone hq hself hother =>
    rw [hq, List.head?_append, hhead]
    rfl
  | works hbefore hq hself hless hother => rw [hq, hhead]
  | @leaves u hq hnone hother =>
    have hne : t ≠ u := by
      rintro rfl
      rw [hnone] at hself
      cases hself
    obtain ⟨rest, hqueue⟩ := List.head?_eq_some_iff.mp hhead
    rw [hq, hqueue, List.filter_cons_of_pos (by simp [hne])]
    rfl

/-- Only the task at the head of the queue writes, and it has a part of its frame left. -/
structure HeadWrites (s : Session) : Prop where
  lined : Lined s
  holder : ∀ {t : Task} {x : List UInt8 × List UInt8}, s.pen t = some x → s.queue.head? = some t
  part : ∀ {t : Task} {payload rest : List UInt8}, s.pen t = some (payload, rest) →
    rest <:+ Frame.encode payload

theorem WireStep.holds (h : WireStep s e s') (hi : HeadWrites s) {u : Task}
    (hu : s'.pen u = some (payload, rest)) :
    s.queue.head? = some u ∧ rest <:+ Frame.encode payload := by
  have hsame : s'.pen u = s.pen u → s.queue.head? = some u ∧ rest <:+ Frame.encode payload :=
    fun heq => ⟨hi.holder (heq ▸ hu), hi.part (heq ▸ hu)⟩
  cases h with
  | stays hout hall => exact hsame (hall u)
  | @begins t payload' hout hhead hbefore hafter hother =>
    by_cases hut : u = t
    · subst hut
      obtain ⟨rfl, rfl⟩ := Prod.mk.inj (Option.some.inj (hafter.symm.trans hu))
      exact ⟨hhead, List.suffix_refl _⟩
    · exact hsame (hother u hut)
  | @pours t payload' rest' count hout hbefore hafter hother =>
    by_cases hut : u = t
    · subst hut
      obtain ⟨rfl, rfl⟩ := Prod.mk.inj (Option.some.inj (hafter.symm.trans hu))
      exact ⟨hi.holder hbefore, (List.drop_suffix count rest').trans (hi.part hbefore)⟩
    · exact hsame (hother u hut)
  | @lifts t payload' rest' hwire hsent hcause hbefore hafter hother =>
    by_cases hut : u = t
    · rw [hut, hafter] at hu
      cases hu
    · exact hsame (hother u hut)

theorem HeadWrites.wireStep (hi : HeadWrites s) (e : Event) : WireStep s e (s.apply e) :=
  (apply_change s e).wireStep hi.lined.numbered

theorem HeadWrites.apply (hi : HeadWrites s) (e : Event) : HeadWrites (s.apply e) := by
  refine ⟨hi.lined.apply e, fun {t x} hx => ?_, fun hx => ((hi.wireStep e).holds hi hx).2⟩
  have herrand : ((s.apply e).errand t).isSome = true := by rw [errand_of_pen hx]; rfl
  exact ((apply_change s e).turn hi.lined.numbered).head ((hi.wireStep e).holds hi hx).1 herrand

theorem headWrites_of_empty (hl : Lined s) (hq : s.queue = []) : HeadWrites s := by
  have hnone : ∀ t, s.pen t = none := by
    intro t
    refine pen_eq_none (Option.not_isSome_iff_eq_none.mp fun hsome => ?_)
    have hmem := (hl.queued t).mpr hsome
    rw [hq] at hmem
    cases hmem
  refine ⟨hl, fun {t _} hx => ?_, fun {t _ _} hx => ?_⟩ <;>
  · rw [hnone t] at hx
    cases hx

theorem HeadWrites.pen_ne (hi : HeadWrites s) {u : Task} {x : List UInt8 × List UInt8}
    (ht : s.pen t = some x) (hu : u ≠ t) : s.pen u = none := by
  cases hpen : s.pen u with
  | none => rfl
  | some y => exact absurd (Option.some.inj ((hi.holder hpen).symm.trans (hi.holder ht))) hu

end Session

end LanguageClient
