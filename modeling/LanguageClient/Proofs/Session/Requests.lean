import LanguageClient.Proofs.Table
import LanguageClient.Session.Basic

/-!
# Who waits for which reply

Most of a session has nothing to do with replies. What has is little: the next request number, the
table of pending requests, whether the server has hung up, where the reader stands, and for every
call the request that it has under way (`Track`). That is a *registry*, and it moves in few ways,
which `Shift` lists. What is worth remembering of a move is a `Happening`.

This file is about registries alone. `Sound` is the invariant that every shift keeps: the pending
table holds exactly the requests that have been registered and have not been handed a reply, numbers
are never used twice, and once a hang-up is complete no request that has made sure of the server
before it wrote is still waiting. `Proofs/Session/Journal.lean` ties a registry to the happenings that
led to it, and `Proofs/Session/Refinement.lean` shows that a session moves its registry by shifts only.
-/

namespace LanguageClient.Session

structure Track where
  id : Nat
  /-- Whether the call has made sure that the server has not hung up. -/
  tested : Bool
  reply : Option Reply

structure Registry where
  next : Nat
  pending : Table Nat
  hungUp : Bool
  reader : ReaderStage
  track : Nat → Option Track

/-- Something that happens to a request, or a response that is read. -/
inductive Happening where
  | registered (n id : Nat)
  | heard (r : Rpc.Response)
  | resolved (n id : Nat) (result : Except SessionError Json)

namespace Registry

def put (r : Registry) (n : Nat) (t : Option Track) : Registry :=
  { r with track := fun m => if m = n then t else r.track m }

def release (r : Registry) (n id : Nat) : Registry :=
  { r.put n none with pending := r.pending.erase id }

def hand (r : Registry) (n : Nat) (reply : Reply) : Registry :=
  r.put n ((r.track n).map fun t => { t with reply := some reply })

def clear (r : Registry) : Registry :=
  { r with
    pending := {}
    track := fun n =>
      if n ∈ r.pending.entries.map (·.2) then
        (r.track n).map fun t => { t with reply := some .abandoned }
      else r.track n }

/-- Call `n` waits for a reply to the request with number `id`. -/
def Waiting (r : Registry) (n id : Nat) : Prop :=
  ∃ t, r.track n = some t ∧ t.id = id ∧ t.reply = none

variable {r : Registry} {n m : Nat} {u : Track}

theorem put_track_eq_some {t : Option Track} :
    (r.put n t).track m = some u ↔ m = n ∧ t = some u ∨ m ≠ n ∧ r.track m = some u := by
  change (if m = n then t else r.track m) = some u ↔ _
  by_cases hm : m = n
  · simp [hm]
  · simp [hm]

theorem track_of_put {t : Track} (h : (r.put n (some t)).track m = some u) :
    m = n ∧ u = t ∨ m ≠ n ∧ r.track m = some u :=
  (put_track_eq_some.mp h).imp_left fun h => ⟨h.1, (Option.some.inj h.2).symm⟩

theorem track_of_hand {t : Track} {reply : Reply} (hn : r.track n = some t)
    (h : (r.hand n reply).track m = some u) :
    m = n ∧ u = { t with reply := some reply } ∨ m ≠ n ∧ r.track m = some u := by
  rw [hand, hn] at h
  exact track_of_put h

theorem track_of_clear (h : r.clear.track n = some u) :
    (n ∈ r.pending.entries.map (·.2) ∧
      ∃ t, r.track n = some t ∧ u = { t with reply := some .abandoned }) ∨
    n ∉ r.pending.entries.map (·.2) ∧ r.track n = some u := by
  change (if n ∈ r.pending.entries.map (·.2) then
    (r.track n).map fun t => { t with reply := some Reply.abandoned } else r.track n) = some u at h
  by_cases hn : n ∈ r.pending.entries.map (·.2)
  · rw [if_pos hn, Option.map_eq_some_iff] at h
    obtain ⟨t, ht, rfl⟩ := h
    exact .inl ⟨hn, t, ht, rfl⟩
  · rw [if_neg hn] at h
    exact .inr ⟨hn, h⟩

theorem release_track_eq_some {id : Nat} :
    (r.release n id).track m = some u ↔ m ≠ n ∧ r.track m = some u := by
  change (r.put n none).track m = some u ↔ _
  rw [put_track_eq_some]
  simp

theorem put_self {t : Option Track} (h : r.track n = t) :
    r.put n t = r := by
  have : (fun m => if m = n then t else r.track m) = r.track := by
    funext m
    by_cases hm : m = n
    · rw [if_pos hm, hm, h]
    · rw [if_neg hm]
  unfold put
  rw [this]

end Registry

/-- How a request comes to a result: it has been handed a reply, it has found that the server has
hung up, or it could not be written. -/
inductive Track.Resolves (hungUp : Bool) (t : Track) : Except SessionError Json → Prop where
  | replied {reply : Reply} (hr : t.reply = some reply) : Resolves hungUp t reply.result
  | hungUp (ht : t.tested = false) (h : hungUp = true) : Resolves hungUp t (.error .closed)
  | writerGone (ht : t.tested = true) : Resolves hungUp t (.error .closed)
  | unwritten (ht : t.tested = true) (cause : IoError) :
      Resolves hungUp t (.error (.transport (.io cause)))

inductive Shift (r : Registry) : List Happening → Registry → Prop where
  | quiet : Shift r [] r
  -- Calls.
  | registered {n : Nat} (hn : r.track n = none) :
      Shift r [.registered n r.next]
        { r.put n (some ⟨r.next, false, none⟩) with
          next := r.next + 1
          pending := r.pending.set r.next n }
  | tested {n : Nat} {t : Track} (hn : r.track n = some t) (hup : r.hungUp = false) :
      Shift r [] (r.put n (some { t with tested := true }))
  | resolved {n : Nat} {t : Track} {result : Except SessionError Json} (hn : r.track n = some t)
      (hr : t.Resolves r.hungUp result) :
      Shift r [.resolved n t.id result] (r.release n t.id)
  | dropped {n : Nat} {t : Track} (hn : r.track n = some t) : Shift r [] (r.release n t.id)
  | abandoned : Shift r [] r.clear
  -- The reader.
  | handed {response : Rpc.Response} {id n : Nat} (hread : r.reader = .reading)
      (hid : response.requestId = some (id : Int)) (hp : r.pending.get? id = some n) :
      Shift r [.heard response]
        { r.hand n (.answered response) with pending := r.pending.erase id }
  | unsolicited {response : Rpc.Response} (hread : r.reader = .reading)
      (hp : ∀ id : Nat, response.requestId = some (id : Int) → r.pending.get? id = none) :
      Shift r [.heard response] r
  | ending (hread : r.reader = .reading) : Shift r [] { r with reader := .marking }
  | marked (hread : r.reader = .marking) : Shift r [] { r with hungUp := true, reader := .clearing }
  | cleared (hread : r.reader = .clearing) : Shift r [] { r.clear with reader := .ended }
  | aborted (hread : r.reader = .reading) : Shift r [] { r with reader := .ended }

/-! ## The invariant

A number is in the table only for the call that it was given to, and only as long as that call has
no reply. So a response under a number finds one call at most. -/

/-- What holds of every registry that a session can have. -/
structure Sound (r : Registry) : Prop where
  distinct : r.pending.keys.Nodup
  waiting : ∀ id n, r.pending.get? id = some n ↔ r.Waiting n id
  issued : ∀ n t, r.track n = some t → 1 ≤ t.id ∧ t.id < r.next
  unique : ∀ n m t u, r.track n = some t → r.track m = some u → t.id = u.id → n = m
  numbered : 1 ≤ r.next
  reading : r.hungUp = true → r.reader = .clearing ∨ r.reader = .ended
  clearing : r.reader = .clearing → r.hungUp = true
  served : r.hungUp = true → r.reader = .ended → ∀ n t, r.track n = some t → t.tested = true →
    t.reply ≠ none

/-- Where the request `u` of call `n` after a move comes from: it has just been registered, or it was
there before, and then a reply was added to it at most. Responses are added only by a reader that
reads. -/
inductive Registry.Stems (r : Registry) (n : Nat) (u : Track) : Prop where
  | new (h : u = ⟨r.next, false, none⟩) : Stems r n u
  | old {t : Track} (ht : r.track n = some t) (hid : u.id = t.id)
      (htest : u.tested = t.tested ∨ r.hungUp = false)
      (hreply : u.reply = t.reply ∨
        t.reply = none ∧ (u.reply = some .abandoned ∨ r.reader = .reading)) : Stems r n u

/-- Every request of `r'` is one of `r`, under the same number. -/
def Registry.Inherits (r r' : Registry) : Prop :=
  r'.next = r.next ∧ ∀ n u, r'.track n = some u → ∃ t, r.track n = some t ∧ u.id = t.id

namespace Sound

variable {r r' : Registry}

theorem next_free (h : Sound r) : r.pending.get? r.next = none := by
  cases hg : r.pending.get? r.next with
  | none => rfl
  | some n =>
    obtain ⟨t, ht, hid, -⟩ := (h.waiting r.next n).mp hg
    have := (h.issued n t ht).2
    omega

theorem hungUp_false (h : Sound r) (hread : r.reader = .reading ∨ r.reader = .marking) :
    r.hungUp = false := by
  cases hup : r.hungUp with
  | false => rfl
  | true =>
    rcases hread with hread | hread <;> rcases h.reading hup with hr | hr <;>
      rw [hread] at hr <;> cases hr

theorem issued_of_inherits (h : Sound r) (hinh : r.Inherits r') :
    ∀ n t, r'.track n = some t → 1 ≤ t.id ∧ t.id < r'.next := by
  intro n u hu
  obtain ⟨t, ht, hid⟩ := hinh.2 n u hu
  rw [hid, hinh.1]
  exact h.issued n t ht

theorem unique_of_inherits (h : Sound r) (hinh : r.Inherits r') :
    ∀ n m t u, r'.track n = some t → r'.track m = some u → t.id = u.id → n = m := by
  intro n m t u ht hu hid
  obtain ⟨t', ht', hidt⟩ := hinh.2 n t ht
  obtain ⟨u', hu', hidu⟩ := hinh.2 m u hu
  exact h.unique n m t' u' ht' hu' (by rw [← hidt, ← hidu, hid])

variable {n : Nat} {t : Track}

theorem registered (h : Sound r) (hn : r.track n = none) :
    Sound { r.put n (some ⟨r.next, false, none⟩) with
      next := r.next + 1, pending := r.pending.set r.next n } := by
  refine ⟨Table.nodup_keys_set n h.distinct h.next_free, fun id m => ?_, fun m u hu => ?_,
    fun a b u v ha hb hid => ?_, Nat.le_succ_of_le h.numbered, h.reading, h.clearing,
    fun hup hend m u hu htest => ?_⟩
  · rw [Table.get?_set]
    by_cases hid : id = r.next
    · rw [if_pos hid, Option.some.injEq]
      constructor
      · rintro rfl
        exact ⟨_, Registry.put_track_eq_some.mpr (.inl ⟨rfl, rfl⟩), hid.symm, rfl⟩
      · rintro ⟨u, hu, hidu, -⟩
        rcases Registry.track_of_put hu with ⟨rfl, -⟩ | ⟨-, hu⟩
        · rfl
        · have := (h.issued m u hu).2
          omega
    · rw [if_neg hid, h.waiting id m]
      constructor
      · rintro ⟨u, hu, hidu, hreply⟩
        have hm : m ≠ n := by
          rintro rfl
          rw [hn] at hu
          cases hu
        exact ⟨u, Registry.put_track_eq_some.mpr (.inr ⟨hm, hu⟩), hidu, hreply⟩
      · rintro ⟨u, hu, hidu, hreply⟩
        rcases Registry.track_of_put hu with ⟨-, rfl⟩ | ⟨-, hu⟩
        · exact absurd hidu.symm hid
        · exact ⟨u, hu, hidu, hreply⟩
  · rcases Registry.track_of_put hu with ⟨-, rfl⟩ | ⟨-, hu⟩
    · exact ⟨h.numbered, Nat.lt_succ_self _⟩
    · have := h.issued m u hu
      exact ⟨this.1, Nat.lt_succ_of_lt this.2⟩
  · -- The new number is above all others.
    rcases Registry.track_of_put ha with ⟨han, rfl⟩ | ⟨-, ha⟩ <;>
      rcases Registry.track_of_put hb with ⟨hbn, rfl⟩ | ⟨-, hb⟩
    · exact han.trans hbn.symm
    · exact absurd hid (Nat.ne_of_gt (h.issued b v hb).2)
    · exact absurd hid (Nat.ne_of_lt (h.issued a u ha).2)
    · exact h.unique a b u v ha hb hid
  · rcases Registry.track_of_put hu with ⟨-, rfl⟩ | ⟨-, hu⟩
    · cases htest
    · exact h.served hup hend m u hu htest

theorem inherits_tested (hn : r.track n = some t) :
    r.Inherits (r.put n (some { t with tested := true })) := by
  refine ⟨rfl, fun m u hu => ?_⟩
  rcases Registry.track_of_put hu with ⟨rfl, rfl⟩ | ⟨-, hu⟩
  · exact ⟨t, hn, rfl⟩
  · exact ⟨u, hu, rfl⟩

theorem tested (h : Sound r) (hn : r.track n = some t) (hup : r.hungUp = false) :
    Sound (r.put n (some { t with tested := true })) := by
  have hinh := inherits_tested hn
  refine ⟨h.distinct, fun id m => (h.waiting id m).trans ?_, h.issued_of_inherits hinh,
    h.unique_of_inherits hinh, h.numbered, h.reading, h.clearing, fun hup' => ?_⟩
  · constructor
    · rintro ⟨u, hu, hid, hreply⟩
      by_cases hm : m = n
      · rw [hm, hn, Option.some.injEq] at hu
        subst hu
        exact ⟨_, Registry.put_track_eq_some.mpr (.inl ⟨hm, rfl⟩), hid, hreply⟩
      · exact ⟨u, Registry.put_track_eq_some.mpr (.inr ⟨hm, hu⟩), hid, hreply⟩
    · rintro ⟨u, hu, hid, hreply⟩
      rcases Registry.track_of_put hu with ⟨rfl, rfl⟩ | ⟨-, hu⟩
      · exact ⟨t, hn, hid, hreply⟩
      · exact ⟨u, hu, hid, hreply⟩
  · change r.hungUp = true at hup'
    rw [hup] at hup'
    cases hup'

/-- Erasing the number of the request of call `n`, where that request is over or has a reply now. -/
theorem erase (h : Sound r) (hn : r.track n = some t) (hp : r'.pending = r.pending.erase t.id)
    (hself : ∀ id, ¬ r'.Waiting n id) (hother : ∀ m, m ≠ n → r'.track m = r.track m) (id m : Nat) :
    r'.pending.get? id = some m ↔ r'.Waiting m id := by
  rw [hp, Table.get?_erase]
  constructor
  · intro hget
    by_cases hid : id = t.id
    · rw [if_pos hid] at hget
      cases hget
    · rw [if_neg hid] at hget
      obtain ⟨u, hu, hidu, hreply⟩ := (h.waiting id m).mp hget
      have hm : m ≠ n := by
        rintro rfl
        rw [hn, Option.some.injEq] at hu
        exact hid (hu ▸ hidu.symm)
      exact ⟨u, (hother m hm).trans hu, hidu, hreply⟩
  · rintro ⟨u, hu, hidu, hreply⟩
    have hm : m ≠ n := by
      rintro rfl
      exact hself id ⟨u, hu, hidu, hreply⟩
    rw [hother m hm] at hu
    have hid : id ≠ t.id := fun heq => hm (h.unique m n u t hu hn (hidu.trans heq))
    rw [if_neg hid]
    exact (h.waiting id m).mpr ⟨u, hu, hidu, hreply⟩

theorem release (h : Sound r) (hn : r.track n = some t) :
    Sound (r.release n t.id) := by
  have hinh : r.Inherits (r.release n t.id) :=
    ⟨rfl, fun m u hu => ⟨u, (Registry.release_track_eq_some.mp hu).2, rfl⟩⟩
  refine ⟨Table.nodup_keys_erase _ h.distinct, h.erase hn rfl ?_ (fun m hm => if_neg hm),
    h.issued_of_inherits hinh, h.unique_of_inherits hinh, h.numbered, h.reading, h.clearing, ?_⟩
  · rintro id ⟨u, hu, -⟩
    exact (Registry.release_track_eq_some.mp hu).1 rfl
  · intro hup hend m u hu htest
    exact h.served hup hend m u (Registry.release_track_eq_some.mp hu).2 htest

theorem handed (h : Sound r) {id : Nat} {reply : Reply} (hread : r.reader = .reading)
    (hp : r.pending.get? id = some n) :
    Sound { r.hand n reply with pending := r.pending.erase id } := by
  obtain ⟨t, ht, rfl, -⟩ := (h.waiting id n).mp hp
  have hinh : r.Inherits { r.hand n reply with pending := r.pending.erase t.id } := by
    refine ⟨rfl, fun m u hu => ?_⟩
    rcases Registry.track_of_hand ht hu with ⟨rfl, rfl⟩ | ⟨-, hu⟩
    · exact ⟨t, ht, rfl⟩
    · exact ⟨u, hu, rfl⟩
  refine ⟨Table.nodup_keys_erase _ h.distinct, h.erase ht rfl ?_ (fun m hm => if_neg hm),
    h.issued_of_inherits hinh, h.unique_of_inherits hinh, h.numbered, h.reading, h.clearing, ?_⟩
  · rintro id ⟨u, hu, -, hreply⟩
    rcases Registry.track_of_hand ht hu with ⟨-, rfl⟩ | ⟨hn, -⟩
    · cases hreply
    · exact hn rfl
  · intro hup
    change r.hungUp = true at hup
    rw [h.hungUp_false (.inl hread)] at hup
    cases hup

/-- What a request looks like after all have been given up: it has the reply that it had before, or
it is one of those that waited. -/
theorem clear_track (h : Sound r) {u : Track} (hu : r.clear.track n = some u) :
    ∃ t, r.track n = some t ∧ u.id = t.id ∧ u.tested = t.tested ∧ u.reply ≠ none ∧
      (u.reply = t.reply ∨ t.reply = none ∧ u.reply = some .abandoned) := by
  rcases Registry.track_of_clear hu with ⟨hn, t, ht, rfl⟩ | ⟨hn, hu⟩
  · obtain ⟨⟨id, n⟩, hentry, rfl⟩ := List.mem_map.mp hn
    obtain ⟨t', ht', -, hnone⟩ := (h.waiting id n).mp ((Table.mem_entries_iff h.distinct).mp hentry)
    obtain rfl : t = t' := Option.some.inj (ht.symm.trans ht')
    exact ⟨t, ht, rfl, rfl, nofun, .inr ⟨hnone, rfl⟩⟩
  · refine ⟨u, hu, rfl, rfl, fun hreply => hn ?_, .inl rfl⟩
    have := (h.waiting u.id n).mpr ⟨u, hu, rfl, hreply⟩
    exact List.mem_map.mpr ⟨(u.id, n), Table.mem_of_get? this, rfl⟩

theorem clear (h : Sound r) : Sound r.clear := by
  have hinh : r.Inherits r.clear := by
    refine ⟨rfl, fun n u hu => ?_⟩
    obtain ⟨t, ht, hid, -⟩ := h.clear_track hu
    exact ⟨t, ht, hid⟩
  refine ⟨List.nodup_nil, fun id n => ⟨nofun, ?_⟩, h.issued_of_inherits hinh,
    h.unique_of_inherits hinh, h.numbered, h.reading, h.clearing, ?_⟩
  · rintro ⟨u, hu, -, hreply⟩
    obtain ⟨t, -, -, -, hsome, -⟩ := h.clear_track hu
    exact absurd hreply hsome
  · intro _ _ n u hu _
    obtain ⟨t, -, -, -, hsome, -⟩ := h.clear_track hu
    exact hsome

theorem moveReader (h : Sound r) {hungUp : Bool} {reader : ReaderStage}
    (hreading : hungUp = true → reader = .clearing ∨ reader = .ended)
    (hclearing : reader = .clearing → hungUp = true)
    (hserved : hungUp = true → reader = .ended → ∀ n t, r.track n = some t → t.reply ≠ none) :
    Sound { r with hungUp, reader } :=
  ⟨h.distinct, h.waiting, h.issued, h.unique, h.numbered, hreading, hclearing,
    fun hup hend n t ht _ => hserved hup hend n t ht⟩

theorem shift {hs : List Happening} (h : Sound r) (hshift : Shift r hs r') : Sound r' := by
  cases hshift with
  | quiet => exact h
  | registered hn => exact h.registered hn
  | tested hn hup => exact h.tested hn hup
  | resolved hn hr => exact h.release hn
  | dropped hn => exact h.release hn
  | abandoned => exact h.clear
  | handed hread hid hp => exact h.handed hread hp
  | unsolicited hread hp => exact h
  | ending hread =>
    have hup := h.hungUp_false (.inl hread)
    exact h.moveReader (by rw [hup]; nofun) nofun nofun
  | marked hread => exact h.moveReader (fun _ => .inl rfl) (fun _ => rfl) nofun
  | cleared hread =>
    refine h.clear.moveReader (fun _ => .inr rfl) nofun fun _ _ n u hu => ?_
    obtain ⟨t, -, -, -, hsome, -⟩ := h.clear_track hu
    exact hsome
  | aborted hread =>
    have hup := h.hungUp_false (.inl hread)
    exact h.moveReader (by rw [hup]; nofun) nofun (by rw [hup]; nofun)

theorem stems_of_shift {hs : List Happening} (h : Sound r) (hshift : Shift r hs r') {u : Track}
    (hu : r'.track n = some u) : r.Stems n u := by
  have hsame : r.track n = some u → r.Stems n u := fun hu => .old hu rfl (.inl rfl) (.inl rfl)
  have hclear : r.clear.track n = some u → r.Stems n u := by
    intro hu
    obtain ⟨t, ht, hid, htest, -, hreply⟩ := h.clear_track hu
    exact .old ht hid (.inl htest) (hreply.imp_right fun ⟨hn, ha⟩ => ⟨hn, .inl ha⟩)
  cases hshift with
  | registered hm =>
    rcases Registry.track_of_put hu with ⟨-, heq⟩ | ⟨-, hu⟩
    · exact .new heq
    · exact hsame hu
  | tested hm hup =>
    rcases Registry.track_of_put hu with ⟨rfl, rfl⟩ | ⟨-, hu⟩
    · exact .old hm rfl (.inr hup) (.inl rfl)
    · exact hsame hu
  | @handed response id m hread hid hp =>
    obtain ⟨t, ht, rfl, hnone⟩ := (h.waiting id m).mp hp
    rcases Registry.track_of_hand ht hu with ⟨rfl, rfl⟩ | ⟨-, hu⟩
    · exact .old ht rfl (.inl rfl) (.inr ⟨hnone, .inr hread⟩)
    · exact hsame hu
  | resolved hm hr | dropped hm => exact hsame (Registry.release_track_eq_some.mp hu).2
  | abandoned => exact hclear hu
  | cleared hread => exact hclear hu
  | _ => exact hsame hu

end Sound

/-- Once request `id` of call `n` has been handed a reply, it keeps it: as long as it is under way,
that is its reply. The number is an old one, so it will not be used again. -/
def Registry.Keeps (r : Registry) (n id : Nat) (reply : Reply) : Prop :=
  id < r.next ∧ ∀ t, r.track n = some t → t.id = id → t.reply = some reply

theorem Shift.next_le {r r' : Registry} {hs : List Happening} (h : Shift r hs r') :
    r.next ≤ r'.next := by
  cases h with
  | registered hn => exact Nat.le_succ _
  | _ => exact Nat.le_refl _

theorem Registry.Keeps.shift {r r' : Registry} {hs : List Happening} {n id : Nat} {reply : Reply}
    (hkeep : r.Keeps n id reply) (h : Sound r) (hshift : Shift r hs r') : r'.Keeps n id reply := by
  refine ⟨Nat.lt_of_lt_of_le hkeep.1 hshift.next_le, fun u hu hid => ?_⟩
  cases h.stems_of_shift hshift hu with
  | new heq =>
    subst heq
    exact absurd hid (Nat.ne_of_gt hkeep.1)
  | @old t ht hidt _ hreply =>
    have hhas := hkeep.2 t ht (hidt.symm.trans hid)
    rcases hreply with hsame | ⟨hnone, -⟩
    · exact hsame.trans hhas
    · rw [hnone] at hhas
      cases hhas

end LanguageClient.Session
