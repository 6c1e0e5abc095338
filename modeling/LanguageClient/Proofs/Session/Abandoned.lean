import LanguageClient.Proofs.Session.Phases
import LanguageClient.Proofs.Session.Refinement

/-!
# Whoever is given up has not been answered

Requests are given up when the stream has ended and when a session is closed. `Change.spares` says
that nobody is given up otherwise. Either way the reader has ended by then, so whoever is given up
has not been answered since it was registered, and will not be: that is `Deserted`, which every event
keeps (`Deserted.apply`).
-/

namespace LanguageClient

namespace Session

variable {s s' mid : Session} {n : Nat} {hs : List Happening}

/-- Whoever is given up in `s'` was given up in `s` before. -/
def Spares (s s' : Session) : Prop :=
  ∀ m c, s'.calls.get? m = some c → c.mailbox = some .abandoned →
    ∃ c₀, s.calls.get? m = some c₀ ∧ c₀.mailbox = some .abandoned

theorem spares_of_calls (h : s'.calls = s.calls) : Spares s s' := by
  intro m c hc hgone
  exact ⟨c, h ▸ hc, hgone⟩

theorem spares_set {c : Call} (h : mid.calls = s.calls) (hcalls : s'.calls = mid.calls.set n c)
    (hc : c.mailbox = some .abandoned →
      ∃ c₀, s.calls.get? n = some c₀ ∧ c₀.mailbox = some .abandoned) : Spares s s' := by
  intro m c' hm hgone
  rw [hcalls, h, Table.get?_set] at hm
  split at hm
  · next heq =>
    subst heq
    obtain rfl := Option.some.inj hm
    exact hc hgone
  · exact ⟨c', hm, hgone⟩

theorem spares_erase (hcalls : s'.calls = s.calls.erase n) : Spares s s' := by
  intro m c hm hgone
  rw [hcalls, Table.get?_erase] at hm
  split at hm
  · cases hm
  · exact ⟨c, hm, hgone⟩

theorem spares_moveCall (h : mid.calls = s.calls) (stage : Stage) :
    Spares s (mid.moveCall n stage) := by
  rw [moveCall]
  split
  · next c hc =>
    exact spares_set h rfl fun hgone => ⟨c, h ▸ hc, hgone⟩
  · exact spares_of_calls h

theorem Settled.spares (hset : Settled mid n s') (h : mid.calls = s.calls) : Spares s s' := by
  obtain ⟨mid', stage, haside, -, rfl⟩ := hset
  have hcalls : mid'.calls = mid.calls := by rw [haside]
  exact spares_moveCall (hcalls.trans h) stage

theorem spares_deliver (h : mid.calls = s.calls) (response : Rpc.Response) :
    Spares s (mid.deliver n (.answered response)) := by
  rw [deliver]
  split
  · refine spares_set h rfl fun hgone => ?_
    cases hgone
  · exact spares_of_calls h

theorem spares_handle (h : mid.calls = s.calls) (payload : List UInt8) :
    Spares s (mid.handle payload) := by
  rw [handle]
  split
  · rw [complete]
    split
    · exact spares_of_calls h
    · split
      · refine spares_deliver ?_ _
        exact h
      · exact spares_of_calls h
  · exact spares_of_calls h
  · split <;> exact spares_of_calls h
  · exact spares_of_calls h

theorem Closes.calls_going {closing next : Closing} (h : Closes s n closing mid (some next)) :
    mid.calls = s.calls := by
  cases h <;> rfl

/-- Nobody is given up but by the reader, which ends, and by whoever closes the session. -/
theorem Change.spares {e : Event} (h : Change s e hs s') :
    Spares s s' ∨ e = .step .reader ∧ s.reader = .clearing ∨
      ∃ n stage, e = .step (.call n) ∧ s.stageOf n = some stage ∧ stage.abandons = true := by
  cases h with
  | called hc | registered hc => exact .inl (spares_set rfl rfl nofun)
  | opened hc => exact .inl ((settled_openCall ..).spares rfl)
  | proceeded hc => exact .inl ((settled_proceed hc).spares rfl)
  | looked hc hw => exact .inl ((settled_drainCheck ..).spares rfl)
  | leaves hc hup | ends hc hup | tested hc hup | taken hc hs => exact .inl (spares_moveCall rfl _)
  | foundHungUp hc hup | replied hc | exchangeRefused hc | messageRefused hc =>
    exact .inl ((settled_finishWork ..).spares rfl)
  | sends hc hs | messageSends hc hs | givesUp hc hs | stops hc hs =>
    exact .inl (spares_moveCall hs.calls_going _)
  | sent hc hs => exact .inl (spares_moveCall hs.calls_finished _)
  | unsent hc hs | messageSent hc hs =>
    exact .inl ((settled_finishWork ..).spares hs.calls_finished)
  | expired hc hb hd => exact .inl ((settled_expire ..).spares (calls_dropWork ..))
  | gaveUp hc hs | stopped hc hs =>
    obtain ⟨rfl, -⟩ := hs.view_finished
    exact .inr (.inr ⟨_, _, rfl, stageOf_of_get? hc, rfl⟩)
  | read hread habort hrec => exact .inl (spares_handle rfl _)
  | cleared hread => exact .inr (.inl ⟨rfl, hread⟩)
  | refusalSends hr hs => exact .inl (spares_of_calls hs.calls_going)
  | refusalSent hr hs => exact .inl (spares_of_calls hs.calls_finished)
  | workDropped hc | closingDropped hc hst | dropped hc hw hst => exact .inl (spares_erase rfl)
  | _ => exact .inl (spares_of_calls rfl)

theorem Shift.reading_of_heard {r r' : Registry} {response : Rpc.Response} (h : Shift r hs r')
    (hheard : .heard response ∈ hs) : r.reader = .reading ∧ r'.reader = .reading := by
  cases h with
  | handed hread hid hp => exact ⟨hread, hread⟩
  | unsolicited hread hp => exact ⟨hread, hread⟩
  | registered hn | resolved hn hr => cases List.mem_singleton.mp hheard
  | _ => cases hheard

/-- Whoever has been given up has not been answered, and nobody reads any more. -/
structure Deserted (hs : List Happening) (s : Session) : Prop where
  ended : ∀ n t, s.track n = some t → t.reply = some .abandoned → s.reader = .ended
  unheard : ∀ n t, s.track n = some t → t.reply = some .abandoned →
    ∃ pre post, hs = pre ++ .registered n t.id :: post ∧ Unanswered t.id post

theorem reader_stays_ended {e : Event} (hl : Lined s) (hread : s.reader = .ended) :
    (s.apply e).reader = .ended := by
  rcases (course hl e).reader_eq with heq | ⟨-, hne⟩
  · exact Eq.trans heq hread
  · exact absurd hread hne

theorem Deserted.ended_apply {c : Phase} {e : Event} (h : Deserted hs s) (hg : Governed c s)
    (hrec : Recorded hs s.registry) {n : Nat} {t : Track} (ht : (s.apply e).track n = some t)
    (hgone : t.reply = some .abandoned) : (s.apply e).reader = .ended := by
  rcases (apply_change s e).spares with hspares | ⟨rfl, hread⟩ | ⟨m, stage, -, hm, habandons⟩
  · obtain ⟨stage, hc, -⟩ := track_eq_some ht
    obtain ⟨c₀, hc₀, hgone₀⟩ := hspares n _ hc hgone
    cases hrec.sound.stems_of_shift (apply_change s e).shift ht with
    | new heq =>
      rw [heq] at hgone
      cases hgone
    | @old t₀ ht₀ hid htest hreply =>
      obtain ⟨stage₀, hc₁, -⟩ := track_eq_some ht₀
      obtain rfl := Option.some.inj (hc₀.symm.trans hc₁)
      exact reader_stays_ended hg.lined (h.ended n t₀ ht₀ hgone₀)
  · rw [Session.apply, step, readerStep, hread]
    dsimp only
    split <;> rfl
  · exact reader_stays_ended hg.lined (hg.manned.abandoning m stage hm habandons)

theorem Deserted.apply {c : Phase} {e : Event} (h : Deserted hs s) (hg : Governed c s)
    (hrec : Recorded hs s.registry) : Deserted (hs ++ s.happenings e) (s.apply e) := by
  refine ⟨fun n t => h.ended_apply hg hrec, fun n t ht hgone => ?_⟩
  have hshift := (apply_change s e).shift
  -- Nothing is heard by an event after which the reader has ended.
  have hmore : Unanswered t.id (s.happenings e) := by
    intro response hheard
    have hreading : (s.apply e).reader = .reading := (hshift.reading_of_heard hheard).2
    rw [h.ended_apply hg hrec ht hgone] at hreading
    cases hreading
  cases hrec.sound.stems_of_shift hshift ht with
  | new heq =>
    rw [heq] at hgone
    cases hgone
  | @old t₀ ht₀ hid htest hreply =>
    have hbefore : ∃ pre post, hs = pre ++ .registered n t.id :: post ∧ Unanswered t.id post := by
      rcases hreply with hsame | ⟨hnone, -⟩
      · rw [hid]
        exact h.unheard n t₀ ht₀ (hsame ▸ hgone)
      · obtain ⟨pre, post, heq, htold⟩ := hrec.told n t₀ ht₀
        rw [hnone] at htold
        exact ⟨pre, post, hid ▸ heq, hid ▸ htold⟩
    obtain ⟨pre, post, rfl, hpost⟩ := hbefore
    exact ⟨pre, post ++ s.happenings e, by simp, hpost.append hmore⟩

theorem Deserted.run {c : Phase} {events : List Event} (h : Deserted hs s) (hg : Governed c s)
    (hrec : Recorded hs s.registry) (hproper : Throughout Proper s events) :
    Deserted (hs ++ s.journal events) (s.run events) := by
  induction events generalizing s c hs with
  | nil =>
    rw [journal, List.append_nil]
    exact h
  | cons e events ih =>
    obtain ⟨d, -, hg'⟩ := hg.apply hproper.1
    rw [journal, ← List.append_assoc]
    exact ih (h.apply hg hrec) hg' (hrec.shift (apply_change s e).shift) hproper.2

theorem deserted_start (settings : SessionSettings) (filter : DocumentFilter) (label : String)
    (processId now : Nat) : Deserted [] (start settings filter label processId now) := by
  have hnobody : ∀ n t, (start settings filter label processId now).track n ≠ some t := by
    intro n t ht
    obtain ⟨stage, hc, hreq⟩ := track_eq_some ht
    obtain ⟨-, rfl⟩ := stageOf_start_eq_some (stageOf_of_get? hc)
    cases hreq
  exact ⟨fun n t ht => absurd ht (hnobody n t), fun n t ht => absurd ht (hnobody n t)⟩

end Session

end LanguageClient
