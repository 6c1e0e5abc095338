import LanguageClient.Proofs.Session.Requests

/-!
# What the record of a registry tells

The happenings of a run, in order, are its record. `Recorded` says how a record fits the registry
that it has led to: every request that is under way was registered, what it has been handed is the
first response with its number since then, no number is registered twice, and no request comes to
two results. Every shift of the registry keeps the record fitting (`Recorded.shift`).
-/

namespace LanguageClient.Session

def Happening.registeredId : Happening → Option Nat
  | .registered _ id => some id
  | _ => none

def Happening.resolvedId : Happening → Option Nat
  | .resolved _ id _ => some id
  | _ => none

/-- Whether a result is one that only a response can give. -/
def IsAnswer : Except SessionError Json → Prop
  | .ok _ => True
  | .error (.serverError _ _) => True
  | .error _ => False

def Unanswered (id : Nat) (hs : List Happening) : Prop :=
  ∀ response, .heard response ∈ hs → response.requestId ≠ some (id : Int)

/-- The first response in `hs` with number `id` is `response`. -/
def FirstReply (id : Nat) (response : Rpc.Response) (hs : List Happening) : Prop :=
  response.requestId = some (id : Int) ∧
    ∃ early late, hs = early ++ .heard response :: late ∧ Unanswered id early

/-- Why a request may have come to a result: it was registered before, and if the result is an
answer, the first response with its number since then gives it. -/
def Warranted (before : List Happening) : Happening → Prop
  | .resolved n id result => ∃ pre post, before = pre ++ .registered n id :: post ∧
      (IsAnswer result →
        ∃ response, FirstReply id response post ∧ result = (Reply.answered response).result)
  | _ => True

variable {id : Nat} {hs : List Happening} {t : Track} {h : Happening}

theorem Unanswered.append {more : List Happening} (h : Unanswered id hs) (h' : Unanswered id more) :
    Unanswered id (hs ++ more) := by
  intro response hmem
  rcases List.mem_append.mp hmem with hmem | hmem
  · exact h response hmem
  · exact h' response hmem

theorem FirstReply.append {response : Rpc.Response} (h : FirstReply id response hs)
    (more : List Happening) :
    FirstReply id response (hs ++ more) := by
  obtain ⟨hid, early, late, rfl, hearly⟩ := h
  exact ⟨hid, early, late ++ more, by simp, hearly⟩

theorem Unanswered.firstReply {response : Rpc.Response} (h : Unanswered id hs)
    (hid : response.requestId = some (id : Int)) :
    FirstReply id response (hs ++ [Happening.heard response]) :=
  ⟨hid, hs, [], rfl, h⟩

/-- The request `t` of call `n` as the record tells it: it was registered, and its reply is the
first response with its number since then. -/
def Told (hs : List Happening) (n : Nat) (t : Track) : Prop :=
  ∃ pre post, hs = pre ++ .registered n t.id :: post ∧
    match t.reply with
    | none => Unanswered t.id post
    | some (.answered response) => FirstReply t.id response post
    | some .abandoned => True

/-- A record that fits a registry. -/
structure Recorded (hs : List Happening) (r : Registry) : Prop where
  sound : Sound r
  told : ∀ n t, r.track n = some t → Told hs n t
  warranted : ∀ before h after, hs = before ++ h :: after → Warranted before h
  registeredOnce : (hs.filterMap Happening.registeredId).Nodup
  registeredPast : ∀ n id, .registered n id ∈ hs → id < r.next
  resolvedOnce : (hs.filterMap Happening.resolvedId).Nodup
  resolvedPast : ∀ n id result, .resolved n id result ∈ hs →
    id < r.next ∧ ∀ m t, r.track m = some t → t.id ≠ id

theorem Told.append {n : Nat} (h : Told hs n t) {more : List Happening}
    (hmore : t.reply = none → Unanswered t.id more) :
    Told (hs ++ more) n t := by
  obtain ⟨pre, post, rfl, hreply⟩ := h
  refine ⟨pre, post ++ more, by simp, ?_⟩
  cases hr : t.reply with
  | none =>
    rw [hr] at hreply
    exact Unanswered.append hreply (hmore hr)
  | some reply =>
    rw [hr] at hreply
    cases reply with
    | answered response => exact FirstReply.append hreply more
    | abandoned => trivial

theorem unanswered_nil (id : Nat) : Unanswered id [] := nofun

theorem unanswered_of_not_heard (hh : ∀ response, h ≠ .heard response) :
    Unanswered id [h] := by
  intro response hmem
  exact absurd (List.mem_singleton.mp hmem).symm (hh response)

theorem nodup_numbers_append {number : Happening → Option Nat} (hd : (hs.filterMap number).Nodup)
    (hnew : ∀ id, number h = some id → ∀ x ∈ hs, number x ≠ some id) :
    ((hs ++ [h]).filterMap number).Nodup := by
  rw [List.filterMap_append]
  cases hnum : number h with
  | none =>
    rw [List.filterMap_cons_none hnum, List.filterMap_nil, List.append_nil]
    exact hd
  | some id =>
    rw [List.filterMap_cons_some hnum, List.filterMap_nil, List.nodup_append]
    refine ⟨hd, by simp, fun id' hid' id'' hid'' => ?_⟩
    obtain ⟨x, hx, hxid⟩ := List.mem_filterMap.mp hid'
    obtain rfl := List.mem_singleton.mp hid''
    rintro rfl
    exact hnew _ hnum x hx hxid

/-- A record in which everything is warranted stays so when a warranted happening is added. -/
theorem warranted_append (hall : ∀ before h after, hs = before ++ h :: after → Warranted before h)
    (hnew : Warranted hs h) :
    ∀ before h' after, hs ++ [h] = before ++ h' :: after → Warranted before h' := by
  intro before h' after heq
  rcases List.eq_nil_or_concat after with rfl | ⟨after, last, rfl⟩
  · obtain ⟨rfl, hlast⟩ := List.append_inj' heq rfl
    obtain rfl := List.cons.inj hlast |>.1
    exact hnew
  · rw [List.concat_eq_append, ← List.cons_append, ← List.append_assoc] at heq
    exact hall before h' after (List.append_inj' heq rfl).1

/-- Every request of `r'` is one of `r` under the same number; all that may have changed about its
reply is that it was given up. -/
def Registry.Thins (r r' : Registry) : Prop :=
  r'.next = r.next ∧ ∀ n u, r'.track n = some u →
    ∃ t, r.track n = some t ∧ u.id = t.id ∧ (u.reply = t.reply ∨ u.reply = some .abandoned)

theorem Registry.Thins.refl (r : Registry) : r.Thins r :=
  ⟨rfl, fun _ u hu => ⟨u, hu, rfl, .inl rfl⟩⟩

theorem Registry.thins_release (r : Registry) (n id : Nat) : r.Thins (r.release n id) :=
  ⟨rfl, fun _ u hu => ⟨u, (Registry.release_track_eq_some.mp hu).2, rfl, .inl rfl⟩⟩

theorem Registry.thins_tested {r : Registry} {n : Nat} (hn : r.track n = some t) :
    r.Thins (r.put n (some { t with tested := true })) := by
  refine ⟨rfl, fun m u hu => ?_⟩
  rcases Registry.track_of_put hu with ⟨rfl, rfl⟩ | ⟨-, hu⟩
  · exact ⟨t, hn, rfl, .inl rfl⟩
  · exact ⟨u, hu, rfl, .inl rfl⟩

theorem Registry.thins_clear (r : Registry) : r.Thins r.clear := by
  refine ⟨rfl, fun n u hu => ?_⟩
  rcases Registry.track_of_clear hu with ⟨-, t, ht, rfl⟩ | ⟨-, hu⟩
  · exact ⟨t, ht, rfl, .inr rfl⟩
  · exact ⟨u, hu, rfl, .inl rfl⟩

theorem Track.Resolves.answered {up : Bool} {result : Except SessionError Json}
    (h : t.Resolves up result) (ha : IsAnswer result) :
    ∃ response, t.reply = some (.answered response) ∧
      result = (Reply.answered response).result := by
  cases h with
  | @replied reply hr =>
    cases reply with
    | answered response => exact ⟨response, hr, rfl⟩
    | abandoned => cases ha
  | hungUp => cases ha
  | writerGone => cases ha
  | unwritten => cases ha

namespace Recorded

variable {hs : List Happening} {r r' : Registry} {result : Except SessionError Json}

variable {n : Nat}

/-- A request that stays as it was, or is given up, is told as before. -/
theorem told_thins (h : Recorded hs r) (hthin : r.Thins r') {u : Track} (hu : r'.track n = some u) :
    Told hs n u := by
  obtain ⟨t, ht, hid, hreply⟩ := hthin.2 n u hu
  obtain ⟨pre, post, rfl, hpost⟩ := h.told n t ht
  refine ⟨pre, post, by rw [hid], ?_⟩
  rcases hreply with hreply | hreply
  · rw [hreply, hid]
    exact hpost
  · rw [hreply]
    trivial

theorem resolved_thins (h : Recorded hs r) (hthin : r.Thins r')
    (hmem : .resolved n id result ∈ hs) :
    id < r'.next ∧ ∀ m t, r'.track m = some t → t.id ≠ id := by
  obtain ⟨hlt, hother⟩ := h.resolvedPast n id result hmem
  refine ⟨hthin.1 ▸ hlt, fun m u hu => ?_⟩
  obtain ⟨t, ht, hid, -⟩ := hthin.2 m u hu
  exact hid ▸ hother m t ht

theorem silent (h : Recorded hs r) (hsound : Sound r') (hthin : r.Thins r') : Recorded hs r' where
  sound := hsound
  told _ _ hu := h.told_thins hthin hu
  warranted := h.warranted
  registeredOnce := h.registeredOnce
  registeredPast n id hmem := hthin.1 ▸ h.registeredPast n id hmem
  resolvedOnce := h.resolvedOnce
  resolvedPast _ _ _ hmem := h.resolved_thins hthin hmem

theorem registered (h : Recorded hs r) (hn : r.track n = none) :
    Recorded (hs ++ [Happening.registered n r.next])
      { r.put n (some ⟨r.next, false, none⟩) with
        next := r.next + 1, pending := r.pending.set r.next n } where
  sound := h.sound.registered hn
  told m u hu := by
    rcases Registry.track_of_put hu with ⟨rfl, rfl⟩ | ⟨-, hu⟩
    · exact ⟨hs, [], rfl, unanswered_nil _⟩
    · exact (h.told m u hu).append fun _ => unanswered_of_not_heard nofun
  warranted := warranted_append h.warranted trivial
  registeredOnce := by
    refine nodup_numbers_append h.registeredOnce fun id hid x hx hxid => ?_
    obtain rfl := Option.some.inj hid
    cases x with
    | registered m id =>
      obtain rfl := Option.some.inj hxid
      exact Nat.lt_irrefl _ (h.registeredPast m _ hx)
    | _ => cases hxid
  registeredPast m id hmem := by
    rcases List.mem_append.mp hmem with hmem | hmem
    · exact Nat.lt_succ_of_lt (h.registeredPast m id hmem)
    · obtain ⟨rfl, rfl⟩ := Happening.registered.inj (List.mem_singleton.mp hmem)
      exact Nat.lt_succ_self _
  resolvedOnce := nodup_numbers_append h.resolvedOnce nofun
  resolvedPast m id result hmem := by
    rcases List.mem_append.mp hmem with hmem | hmem
    · obtain ⟨hlt, hother⟩ := h.resolvedPast m id result hmem
      refine ⟨Nat.lt_succ_of_lt hlt, fun k u hu => ?_⟩
      rcases Registry.track_of_put hu with ⟨-, rfl⟩ | ⟨-, hu⟩
      · exact (Nat.ne_of_lt hlt).symm
      · exact hother k u hu
    · cases List.mem_singleton.mp hmem

theorem resolved (h : Recorded hs r) (hn : r.track n = some t) (hr : t.Resolves r.hungUp result) :
    Recorded (hs ++ [Happening.resolved n t.id result]) (r.release n t.id) where
  sound := h.sound.release hn
  told _ _ hu :=
    (h.told_thins (r.thins_release n t.id) hu).append fun _ => unanswered_of_not_heard nofun
  warranted := by
    refine warranted_append h.warranted ?_
    obtain ⟨pre, post, heq, hpost⟩ := h.told n t hn
    refine ⟨pre, post, heq, fun ha => ?_⟩
    obtain ⟨response, hreply, hresult⟩ := hr.answered ha
    rw [hreply] at hpost
    exact ⟨response, hpost, hresult⟩
  registeredOnce := nodup_numbers_append h.registeredOnce nofun
  registeredPast m id hmem := by
    rcases List.mem_append.mp hmem with hmem | hmem
    · exact h.registeredPast m id hmem
    · cases List.mem_singleton.mp hmem
  resolvedOnce := by
    refine nodup_numbers_append h.resolvedOnce fun id hid x hx hxid => ?_
    obtain rfl := Option.some.inj hid
    cases x with
    | resolved m id result' =>
      obtain rfl := Option.some.inj hxid
      exact (h.resolvedPast m _ result' hx).2 n t hn rfl
    | _ => cases hxid
  resolvedPast m id result' hmem := by
    rcases List.mem_append.mp hmem with hmem | hmem
    · exact h.resolved_thins (r.thins_release n t.id) hmem
    · obtain ⟨-, rfl, -⟩ := Happening.resolved.inj (List.mem_singleton.mp hmem)
      refine ⟨(h.sound.issued n t hn).2, fun k u hu hid => ?_⟩
      obtain ⟨hk, hu⟩ := Registry.release_track_eq_some.mp hu
      exact hk (h.sound.unique k n u t hu hn hid)

theorem heard (h : Recorded hs r) {response : Rpc.Response} (hsound : Sound r')
    (hnext : r'.next = r.next)
    (hview : ∀ n u, r'.track n = some u → ∃ t, r.track n = some t ∧ u.id = t.id ∧
      (u.reply = t.reply ∧ (t.reply = none → response.requestId ≠ some (t.id : Int)) ∨
        t.reply = none ∧ u.reply = some (.answered response) ∧
          response.requestId = some (t.id : Int))) :
    Recorded (hs ++ [Happening.heard response]) r' where
  sound := hsound
  told n u hu := by
    obtain ⟨t, ht, hid, ⟨hreply, hne⟩ | ⟨hnone, hreply, heq⟩⟩ := hview n u hu
    · have htold : Told (hs ++ [Happening.heard response]) n t := by
        refine (h.told n t ht).append fun hnone x hx => ?_
        obtain rfl := Happening.heard.inj (List.mem_singleton.mp hx)
        exact hne hnone
      rw [Told, hid, hreply]
      exact htold
    · obtain ⟨pre, post, rfl, hpost⟩ := h.told n t ht
      rw [hnone] at hpost
      refine ⟨pre, post ++ [Happening.heard response], by simp [hid], ?_⟩
      rw [hreply, hid]
      exact Unanswered.firstReply hpost heq
  warranted := warranted_append h.warranted trivial
  registeredOnce := nodup_numbers_append h.registeredOnce nofun
  registeredPast n id hmem := by
    rcases List.mem_append.mp hmem with hmem | hmem
    · exact hnext ▸ h.registeredPast n id hmem
    · cases List.mem_singleton.mp hmem
  resolvedOnce := nodup_numbers_append h.resolvedOnce nofun
  resolvedPast n id result hmem := by
    rcases List.mem_append.mp hmem with hmem | hmem
    · obtain ⟨hlt, hother⟩ := h.resolvedPast n id result hmem
      refine ⟨hnext ▸ hlt, fun m u hu => ?_⟩
      obtain ⟨t, ht, hid, -⟩ := hview m u hu
      exact hid ▸ hother m t ht
    · cases List.mem_singleton.mp hmem

theorem handed (h : Recorded hs r) {response : Rpc.Response} (hread : r.reader = .reading)
    (hid : response.requestId = some (id : Int)) (hp : r.pending.get? id = some n) :
    Recorded (hs ++ [Happening.heard response])
      { r.hand n (.answered response) with pending := r.pending.erase id } := by
  obtain ⟨t, ht, rfl, hnone⟩ := (h.sound.waiting id n).mp hp
  refine h.heard (h.sound.handed hread hp) rfl fun m u hu => ?_
  rcases Registry.track_of_hand ht hu with ⟨rfl, rfl⟩ | ⟨hm, hu⟩
  · exact ⟨t, ht, rfl, .inr ⟨hnone, rfl, hid⟩⟩
  · refine ⟨u, hu, rfl, .inl ⟨rfl, fun _ heq => hm ?_⟩⟩
    have : t.id = u.id := by
      rw [hid, Option.some.injEq] at heq
      exact Int.ofNat.inj heq
    exact h.sound.unique m n u t hu ht this.symm

theorem shift {more : List Happening} (h : Recorded hs r) (hshift : Shift r more r') :
    Recorded (hs ++ more) r' := by
  have hsound := h.sound.shift hshift
  cases hshift with
  | quiet => simpa using h
  | registered hn => exact h.registered hn
  | tested hn hup => simpa using h.silent hsound (Registry.thins_tested hn)
  | resolved hn hr => exact h.resolved hn hr
  | @dropped n t hn => simpa using h.silent hsound (r.thins_release n t.id)
  | abandoned | cleared hread => simpa using h.silent hsound r.thins_clear
  | handed hread hid hp => exact h.handed hread hid hp
  | unsolicited hread hp =>
    refine h.heard hsound rfl fun n t ht => ⟨t, ht, rfl, .inl ⟨rfl, fun hnone heq => ?_⟩⟩
    have := (h.sound.waiting t.id n).mpr ⟨t, ht, rfl, hnone⟩
    rw [hp t.id heq] at this
    cases this
  | ending hread | marked hread | aborted hread =>
    simpa using h.silent hsound (Registry.Thins.refl r)

end Recorded

end LanguageClient.Session
