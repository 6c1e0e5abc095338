import LanguageClient.Proofs.Session.Abandoned
import Mathlib.Data.List.Induction

/-!
# The table of pending requests

Entries leave the table in four places: the reader strikes off a request that is answered, a hang-up
and the closing of the stream strike off all of them, and a request that is over is struck off by its
own call, however it ended and whether or not its entry was still there. `EndsWait` lists these
events, by what happens and not by what becomes of the table.

An event makes an entry exactly if it registers a request, and leaves one exactly if it does not end
the wait (`get?_pending_apply`). After a run the table therefore holds the requests that are kept
waiting (`KeptWaiting`), and nobody is counted whose call is over.
-/

namespace LanguageClient.Session

/-- Call `n` is at its request `id`: it has registered it, and has neither returned from it nor been
dropped. -/
def Pursues (s : Session) (n id : Nat) : Prop := ∃ t, s.track n = some t ∧ t.id = id

/-- The events at which the wait of request `id` of call `n` ends. -/
inductive EndsWait (s : Session) (n id : Nat) : Event → Prop where
  /-- A response with its number is read. -/
  | answered {e : Event} {response : Rpc.Response} (hheard : s.happenings e = [.heard response])
      (hid : response.requestId = some (id : Int)) : EndsWait s n id e
  /-- The reader, which has seen the end of the server's stream, gives up all requests. -/
  | hungUp (hread : s.reader = .clearing) : EndsWait s n id (.step .reader)
  /-- A call that has closed the stream gives up all requests. -/
  | closed {m : Nat} {stage : Stage} (hm : s.stageOf m = some stage)
      (habandons : stage.abandons = true) : EndsWait s n id (.step (.call m))
  /-- The call returns or is dropped. -/
  | ended {e : Event} (h : ¬ (s.apply e).Pursues n id) : EndsWait s n id e

variable {s : Session} {r r' : Registry} {e : Event} {hs : List Happening} {n id : Nat}

/-! ## What an event does to an entry -/

theorem Shift.pending_registered (h : Shift r hs r') (hnew : hs = [.registered n id]) :
    r'.pending.get? id = some n := by
  cases h with
  | registered hn =>
    obtain ⟨rfl, rfl⟩ := Happening.registered.inj (List.cons.inj hnew).1
    exact Table.get?_set_self ..
  | _ => cases hnew

/-- Only registering a request makes an entry, and that has a new number. -/
theorem Shift.pending_origin (h : Shift r hs r') (hget : r'.pending.get? id = some n) :
    r.pending.get? id = some n ∨ hs = [.registered n id] ∧ id = r.next := by
  have herase : ∀ {number : Nat}, (r.pending.erase number).get? id = some n →
      r.pending.get? id = some n := by
    intro number hget
    rw [Table.get?_erase] at hget
    split at hget
    · cases hget
    · exact hget
  cases h with
  | registered hn =>
    rw [Table.get?_set] at hget
    split at hget
    · next hid => exact .inr ⟨by rw [hid, Option.some.inj hget], hid⟩
    · exact .inl hget
  | resolved hn hr | dropped hn | handed hread hid hp => exact .inl (herase hget)
  | abandoned => cases hget
  | cleared hread => cases hget
  | _ => exact .inl hget

theorem Shift.pending_heard {response : Rpc.Response} (h : Shift r hs r')
    (hheard : hs = [.heard response]) (hid : response.requestId = some (id : Int)) :
    r'.pending.get? id = none := by
  cases h with
  | handed hread hid' hp =>
    cases hheard
    obtain rfl := Int.ofNat.inj (Option.some.inj (hid.symm.trans hid'))
    exact (Table.get?_erase ..).trans (if_pos rfl)
  | unsolicited hread hp =>
    cases hheard
    exact hp id hid
  | _ => cases hheard

/-- An entry stays, unless its request is answered or over, or its call is told that it is given
up. -/
theorem Sound.entry_stays (hsound : Sound r) (h : Shift r hs r') (hget : r.pending.get? id = some n) :
    r'.pending.get? id = some n ∨ r'.track n = none ∨
      (∃ response, hs = [.heard response] ∧ response.requestId = some (id : Int)) ∨
      ∃ u, r'.track n = some u ∧ u.reply = some .abandoned := by
  obtain ⟨t, ht, rfl, -⟩ := (hsound.waiting id n).mp hget
  have hreleased : ∀ {m : Nat} {u : Track}, r.track m = some u →
      (r.release m u.id).pending.get? t.id = some n ∨ (r.release m u.id).track n = none := by
    intro m u hu
    by_cases hid : t.id = u.id
    · obtain rfl := hsound.unique n m t u ht hu hid
      exact .inr (if_pos rfl)
    · exact .inl ((Table.get?_erase ..).trans ((if_neg hid).trans hget))
  have hcleared : r.clear.track n = some { t with reply := some .abandoned } := by
    have hmem := List.mem_map_of_mem (f := (·.2)) (Table.mem_of_get? hget)
    exact (if_pos hmem).trans (by rw [ht]; rfl)
  cases h with
  | registered hm =>
    refine .inl ((Table.get?_set ..).trans ((if_neg ?_).trans hget))
    exact Nat.ne_of_lt (hsound.issued n t ht).2
  | resolved hm hr | dropped hm => exact (hreleased hm).imp_right .inl
  | @handed response number m hread hid hp =>
    by_cases heq : t.id = number
    · exact .inr (.inr (.inl ⟨response, rfl, heq ▸ hid⟩))
    · exact .inl ((Table.get?_erase ..).trans ((if_neg heq).trans hget))
  | abandoned | cleared hread => exact .inr (.inr (.inr ⟨_, hcleared, rfl⟩))
  | _ => exact .inl hget

theorem stays_or_endsWait (hsound : Sound s.registry) (hget : s.pending.get? id = some n) :
    (s.apply e).pending.get? id = some n ∨ EndsWait s n id e := by
  have hchange := apply_change s e
  rcases hsound.entry_stays hchange.shift hget with
    hstays | hnone | ⟨response, hheard, hid⟩ | ⟨u, hu, hgone⟩
  · exact .inl hstays
  · refine .inr (.ended ?_)
    rintro ⟨t, ht, -⟩
    cases hnone.symm.trans ht
  · exact .inr (.answered hheard hid)
  · -- The call had not been told before, so this is an event at which requests are given up.
    obtain ⟨t, ht, -, hwaits⟩ := (hsound.waiting id n).mp hget
    obtain ⟨stage, hc, -⟩ := track_eq_some ht
    obtain ⟨stage', hc', -⟩ := track_eq_some hu
    rcases hchange.spares with hspares | ⟨rfl, hread⟩ | ⟨m, stage, rfl, hm, habandons⟩
    · obtain ⟨c, hc₀, hgone₀⟩ := hspares n _ hc' hgone
      obtain rfl := Option.some.inj (hc.symm.trans hc₀)
      cases hwaits.symm.trans hgone₀
    · exact .inr (.hungUp hread)
    · exact .inr (.closed hm habandons)

theorem pending_moveCall (s : Session) (n : Nat) (stage : Stage) :
    (s.moveCall n stage).pending = s.pending := by
  obtain ⟨calls, heq⟩ := moveCall_eq s n stage
  rw [heq]

theorem pending_abandonPending (s : Session) : s.abandonPending.pending = {} :=
  congrArg Registry.pending (registry_abandonPending s)

theorem EndsWait.gone (h : EndsWait s n id e) (hsound : Sound s.registry) :
    (s.apply e).pending.get? id ≠ some n := by
  have hshift := (apply_change s e).shift
  intro hget
  cases h with
  | answered hheard hid => cases (hshift.pending_heard hheard hid).symm.trans hget
  | hungUp hread =>
    have hempty : (s.apply (.step .reader)).pending = {} := by
      rw [apply, step, readerStep, hread]
      dsimp only
      split <;> exact pending_abandonPending s
    rw [hempty] at hget
    cases hget
  | @closed m stage hm habandons =>
    obtain ⟨mailbox, hc⟩ := exists_at hm
    have hempty : (s.apply (.step (.call m))).pending = {} := by
      obtain ⟨log, hclose⟩ := closeStep_abandoning s m
      cases stage with
      | givingUp closing error | ending closing result =>
        cases closing with
        | abandoning =>
          simp only [apply, step, callStep, hc, hclose, Option.getD_some]
          exact (pending_moveCall ..).trans (pending_abandonPending s)
        | _ => cases habandons
      | _ => cases habandons
    rw [hempty] at hget
    cases hget
  | ended h =>
    obtain ⟨t, ht, hid, -⟩ := ((hsound.shift hshift).waiting id n).mp hget
    exact h ⟨t, ht, hid⟩

theorem get?_pending_apply (hsound : Sound s.registry) :
    (s.apply e).pending.get? id = some n ↔
      s.happenings e = [.registered n id] ∨ s.pending.get? id = some n ∧ ¬ EndsWait s n id e := by
  have hshift := (apply_change s e).shift
  constructor
  · intro hget
    rcases hshift.pending_origin hget with hold | ⟨hnew, -⟩
    · exact .inr ⟨hold, fun hends => hends.gone hsound hget⟩
    · exact .inl hnew
  · rintro (hnew | ⟨hold, hnot⟩)
    · exact hshift.pending_registered hnew
    · exact (stays_or_endsWait hsound hold).resolve_right hnot

/-! ## Runs -/

/-- Request `id` of call `n` is kept waiting by the events of a run: one of them has registered it,
and none since then has ended the wait. -/
inductive KeptWaiting (s : Session) (n id : Nat) : List Event → Prop where
  | registered {events : List Event} {e : Event}
      (h : (s.run events).happenings e = [.registered n id]) : KeptWaiting s n id (events ++ [e])
  | waits {events : List Event} {e : Event} (h : KeptWaiting s n id events)
      (hnot : ¬ EndsWait (s.run events) n id e) : KeptWaiting s n id (events ++ [e])

theorem not_keptWaiting_nil : ¬ KeptWaiting s n id [] := by
  generalize hall : ([] : List Event) = all
  rintro (_ | _) <;> simp at hall

theorem keptWaiting_snoc {events : List Event} :
    KeptWaiting s n id (events ++ [e]) ↔ (s.run events).happenings e = [.registered n id] ∨
      KeptWaiting s n id events ∧ ¬ EndsWait (s.run events) n id e := by
  constructor
  · generalize hall : events ++ [e] = all
    intro h
    cases h with
    | registered h =>
      obtain ⟨rfl, ⟨⟩⟩ := List.append_inj' hall rfl
      exact .inl h
    | waits h hnot =>
      obtain ⟨rfl, ⟨⟩⟩ := List.append_inj' hall rfl
      exact .inr ⟨h, hnot⟩
  · rintro (h | ⟨h, hnot⟩)
    · exact .registered h
    · exact .waits h hnot

/-- The induction is on the events, the last one first. -/
theorem get?_pending_run (h : Recorded [] s.registry) (hempty : s.pending = {})
    (events : List Event) (id n : Nat) :
    (s.run events).pending.get? id = some n ↔ KeptWaiting s n id events := by
  induction events using List.reverseRecOn with
  | nil =>
    change s.pending.get? id = some n ↔ _
    rw [hempty]
    exact ⟨nofun, fun h => (not_keptWaiting_nil h).elim⟩
  | append_singleton events e ih =>
    have hlast : s.run (events ++ [e]) = (s.run events).apply e := List.foldl_append
    rw [hlast, get?_pending_apply (h.run events).sound, keptWaiting_snoc, ih]

/-! ## Who is counted -/

theorem Sound.exists_of_mem_keys (h : Sound s.registry) (hid : id ∈ s.pending.keys) :
    ∃ n, s.pending.get? id = some n ∧ s.Pursues n id ∧ 1 ≤ id ∧ id < s.ids.next := by
  obtain ⟨⟨_, n⟩, hentry, rfl⟩ := List.mem_map.mp hid
  have hget := (Table.mem_entries_iff h.distinct).mp hentry
  obtain ⟨t, ht, rfl, -⟩ := (h.waiting _ n).mp hget
  exact ⟨n, hget, ⟨t, ht, rfl⟩, h.issued n t ht⟩

theorem Sound.inFlight_eq_zero (h : Sound s.registry) (hidle : ∀ n id, ¬ s.Pursues n id) :
    s.inFlight = 0 := by
  rw [inFlight, Table.size, List.length_eq_zero_iff, List.eq_nil_iff_forall_not_mem]
  intro entry hentry
  obtain ⟨n, -, hpursues, -⟩ := h.exists_of_mem_keys (List.mem_map_of_mem hentry)
  exact hidle n _ hpursues

/-- What the table of pending requests holds after the events of a run, and whom it counts. -/
structure Tabled (s : Session) (events : List Event) : Prop where
  entries : ∀ id n, (s.run events).pending.get? id = some n ↔ KeptWaiting s n id events
  keys : ∀ id, id ∈ (s.run events).pending.keys ↔ ∃ n, KeptWaiting s n id events
  distinct : (s.run events).pending.keys.Nodup
  /-- The numbers are among those that have been given out. -/
  numbered : ∀ id ∈ (s.run events).pending.keys, 1 ≤ id ∧ id < (s.run events).ids.next
  counted : (s.run events).inFlight = (s.run events).pending.keys.length
  /-- Whoever is counted has a call that is still at its request. -/
  pursued : ∀ id ∈ (s.run events).pending.keys, ∃ n, (s.run events).Pursues n id
  idle : (∀ n id, ¬ (s.run events).Pursues n id) → (s.run events).inFlight = 0

/-- After every run, whatever is asked, read, written, dropped or closed on the way and in whatever
order, the table of pending requests holds exactly those that are kept waiting. -/
theorem pending_are_kept_waiting (settings : SessionSettings) (filter : DocumentFilter)
    (label : String) (processId now : Nat) (events : List Event) :
    Tabled (start settings filter label processId now) events := by
  have hstart := recorded_start settings filter label processId now
  have hsound := (hstart.run events).sound
  have hentries := get?_pending_run hstart rfl events
  refine ⟨hentries, fun id => ⟨fun hid => ?_, ?_⟩, hsound.distinct, fun id hid => ?_,
    (List.length_map _).symm, fun id hid => ?_, hsound.inFlight_eq_zero⟩
  · obtain ⟨n, hget, -⟩ := hsound.exists_of_mem_keys hid
    exact ⟨n, (hentries id n).mp hget⟩
  · rintro ⟨n, hn⟩
    exact List.mem_map_of_mem (Table.mem_of_get? ((hentries id n).mpr hn))
  · obtain ⟨n, -, -, hnumber⟩ := hsound.exists_of_mem_keys hid
    exact hnumber
  · obtain ⟨n, -, hpursues, -⟩ := hsound.exists_of_mem_keys hid
    exact ⟨n, hpursues⟩

/-- The handshake is counted as soon as its request is registered, and not any more when its caller
loses interest in it. -/
example :
    ((start {} {} "custom" 0 0).run [.step (.call 0), .step (.call 0)]).pending.keys = [1] ∧
      ((start {} {} "custom" 0 0).run [.step (.call 0), .step (.call 0), .drop 0]).inFlight = 0 := by
  decide

end LanguageClient.Session
