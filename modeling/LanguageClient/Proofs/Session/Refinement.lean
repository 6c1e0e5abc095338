import LanguageClient.Proofs.Session.Bystanders
import LanguageClient.Proofs.Session.Journal

/-!
# A session as a registry of requests

The registry of a session (`Session.registry`) is read off its fields and off the stages of its
calls. The main theorem is `Change.shift`: whatever happens to a session, its registry makes one of
the moves of `Proofs/Session/Requests.lean`. Everything that is known of registries therefore holds
of sessions, after every run (`run_recorded`).
-/

namespace LanguageClient

/-- The number of the request that a call at this stage has under way, and whether the call has made
sure that the server has not hung up. -/
def Stage.request : Stage → Option (Nat × Bool)
  | .working (.exchange (.registered _ id)) _ _ => some (id, false)
  | .working (.exchange (.sending id _)) _ _ => some (id, true)
  | .working (.exchange (.awaiting id)) _ _ => some (id, true)
  | _ => none

def Call.track (c : Call) : Option Session.Track :=
  c.stage.request.map fun (id, tested) => ⟨id, tested, c.mailbox⟩

namespace Session

def track (s : Session) (n : Nat) : Option Track := (s.calls.get? n).bind Call.track

def registry (s : Session) : Registry :=
  ⟨s.ids.next, s.pending, s.hungUp, s.reader, s.track⟩

/-! ## What the small updates do to the registry

One equation for each update, in terms of the registry's own operations. -/

variable {s s' mid : Session} {n : Nat} {stage : Stage}

theorem track_of_get? {c : Call} (h : s.calls.get? n = some c) : s.track n = c.track := by
  rw [track, h]
  rfl

theorem track_eq_some {t : Track} (h : s.track n = some t) :
    ∃ stage, s.At n stage t.reply ∧ stage.request = some (t.id, t.tested) := by
  obtain ⟨⟨stage, mailbox⟩, hc, htrack⟩ := Option.bind_eq_some_iff.mp h
  obtain ⟨⟨id, tested⟩, hreq, rfl⟩ := Option.map_eq_some_iff.mp htrack
  exact ⟨stage, hc, hreq⟩

/-- The registry sees a change of the table of calls at the one number where the table has changed.
-/
theorem registry_of_calls {calls : Table Call} {t : Option Track}
    (h : ∀ m, (calls.get? m).bind Call.track = if m = n then t else s.track m) :
    { s with calls }.registry = s.registry.put n t := by
  have htrack : { s with calls }.track = (s.registry.put n t).track := funext h
  unfold registry
  rw [htrack]
  rfl

theorem registry_setCall (s : Session) (n : Nat) (c : Call) :
    { s with calls := s.calls.set n c }.registry = s.registry.put n c.track := by
  refine registry_of_calls fun m => ?_
  rw [Table.get?_set, apply_ite (Option.bind · Call.track)]
  rfl

theorem registry_eraseCall (s : Session) (n : Nat) :
    { s with calls := s.calls.erase n }.registry = s.registry.put n none := by
  refine registry_of_calls fun m => ?_
  rw [Table.get?_erase, apply_ite (Option.bind · Call.track)]
  rfl

theorem registry_moveCall {c : Call} (h : s.calls.get? n = some c) (stage : Stage) :
    (s.moveCall n stage).registry = s.registry.put n { c with stage }.track := by
  rw [moveCall, h]
  exact registry_setCall s n { c with stage }

theorem track_of_request {c : Call} (h : c.stage.request = none) : c.track = none := by
  rw [Call.track, h]
  rfl

theorem registry_retire (n : Nat) (hst : stage.request = none) :
    (s.moveCall n stage).registry = s.registry.put n none := by
  cases h : s.calls.get? n with
  | none =>
    have : s.registry.track n = none := by
      change (s.calls.get? n).bind Call.track = none
      rw [h]
      rfl
    rw [moveCall, h, Registry.put_self this]
  | some c => rw [registry_moveCall h, track_of_request hst]

theorem registry_deliver (s : Session) (n : Nat) (reply : Reply) :
    (s.deliver n reply).registry = s.registry.hand n reply := by
  have htrack : s.registry.track n = (s.calls.get? n).bind Call.track := rfl
  rw [deliver, Registry.hand, htrack]
  cases h : s.calls.get? n with
  | none =>
    rw [h] at htrack
    exact (Registry.put_self htrack).symm
  | some c =>
    change Session.registry { s with calls := _ } = _
    rw [registry_setCall]
    simp [Call.track, Function.comp_def]

theorem Registry.foldl_hand (reply : Reply) (ns : List Nat) (r : Registry) :
    ns.foldl (fun r n => r.hand n reply) r =
      { r with
        track := fun n =>
          if n ∈ ns then (r.track n).map fun t => { t with reply := some reply }
          else r.track n } := by
  induction ns generalizing r with
  | nil => simp
  | cons a rest ih =>
    rw [List.foldl_cons, ih]
    have : ∀ n, (r.hand a reply).track n =
        if n = a then (r.track n).map fun t => { t with reply := some reply } else r.track n := by
      intro n
      by_cases hn : n = a
      · simp [Registry.hand, Registry.put, hn]
      · simp [Registry.hand, Registry.put, hn]
    simp only [Registry.mk.injEq]
    refine ⟨rfl, rfl, rfl, rfl, ?_⟩
    funext n
    rw [this]
    by_cases hn : n = a <;> by_cases hrest : n ∈ rest <;> simp [hn, hrest, Function.comp_def]

theorem registry_abandonPending (s : Session) : s.abandonPending.registry = s.registry.clear := by
  have hfold : s.abandonPending.registry = (s.pending.entries.map (·.2)).foldl
      (fun r n => r.hand n .abandoned) (Session.registry { s with pending := {} }) := by
    rw [List.foldl_map]
    exact (List.foldl_hom registry fun s e => (registry_deliver s e.2 .abandoned).symm).symm
  rw [hfold, Registry.foldl_hand]
  rfl

/-! ## Every change is a shift

The case analysis on `Change`, made once. Whatever is shown about shifts holds of sessions from here
on. -/

theorem request_of_atRest (h : stage.atRest = true) : stage.request = none := by
  cases stage with
  | working work deadline purpose =>
    cases work with
    | send sending => rfl
    | exchange exchange =>
      cases exchange with
      | fresh method params => rfl
      | _ => cases h
  | _ => rfl

theorem request_of_not_working (h : stage.isWorking = false) : stage.request = none := by
  cases stage with
  | working work deadline purpose => cases h
  | _ => rfl

theorem request_of_waitsToClose (h : stage.waitsToClose = true) : stage.request = none := by
  cases stage with
  | working work deadline purpose => cases h
  | _ => rfl

theorem Settled.registry (h : Settled s n s') : s'.registry = s.registry.put n none := by
  obtain ⟨mid, stage, haside, hrest, rfl⟩ := h
  rw [registry_retire n (request_of_atRest hrest), haside]
  rfl

theorem Sends.registry_going {t : Task} {sending next : Sending}
    (h : Sends s t sending (.going mid next)) : mid.registry = s.registry := by
  cases h <;> rfl

theorem Sends.registry_finished {t : Task} {sending : Sending} {result : Except SessionError Json}
    (h : Sends s t sending (.finished mid result)) : mid.registry = s.registry := by
  cases h <;> rfl

/-- Closing the stream does nothing to requests, but for its last step, which gives them up. -/
theorem Closes.registry {closing : Closing} {next : Option Closing}
    (h : Closes s n closing mid next) :
    mid.registry = s.registry ∨ mid.registry = s.registry.clear := by
  cases h with
  | abandons => exact .inr (registry_abandonPending s)
  | _ => exact .inl rfl

section Steps

variable {stage : Stage} {mailbox : Option Reply}

theorem track_none (hc : s.At n stage mailbox) (hreq : stage.request = none) :
    s.registry.track n = none :=
  (track_of_get? hc).trans (track_of_request hreq)

theorem shift_of_put (hc : s.At n stage mailbox) (hreq : stage.request = none)
    (hs : s'.registry = s.registry.put n none) : Shift s.registry [] s'.registry := by
  rw [hs, Registry.put_self (track_none hc hreq)]
  exact .quiet

theorem Closes.shift {closing : Closing} {next : Option Closing} (h : Closes s n closing mid next)
    (hc : s.At n stage mailbox) (hreq : stage.request = none)
    (hs : s'.registry = mid.registry.put n none) : Shift s.registry [] s'.registry := by
  rcases h.registry with hreg | hreg
  · exact shift_of_put hc hreq (hs.trans (by rw [hreg]))
  · have hclear : s.registry.clear.track n = none := by
      simp [Registry.clear, track_none hc hreq]
    rw [hs, hreg, Registry.put_self hclear]
    exact .abandoned

theorem dropWork_shift {work : Work} {deadline : Option Nat} {purpose : Purpose}
    (hc : s.At n (.working work deadline purpose) mailbox)
    (hs : s'.registry = (s.dropWork (.call n) work).registry.put n none) :
    Shift s.registry [] s'.registry := by
  have htrack := track_of_get? hc
  have hquiet : s.registry.track n = none → Shift s.registry [] (s.registry.put n none) := by
    intro hnone
    rw [Registry.put_self hnone]
    exact .quiet
  rw [hs]
  cases work with
  | send sending => exact hquiet htrack
  | exchange exchange =>
    cases exchange with
    | fresh method params => exact hquiet htrack
    | registered request id => exact @Shift.dropped _ n ⟨id, false, mailbox⟩ htrack
    | sending id sending | awaiting id => exact @Shift.dropped _ n ⟨id, true, mailbox⟩ htrack

theorem registry_moved (hc : s.At n stage mailbox) (hcalls : mid.calls = s.calls)
    (hreg : mid.registry = s.registry) (next : Stage) :
    (mid.moveCall n next).registry = s.registry.put n (Call.track ⟨next, mailbox⟩) := by
  have hc' : mid.calls.get? n = some ⟨stage, mailbox⟩ := by
    rw [hcalls]
    exact hc
  rw [registry_moveCall hc', hreg]

theorem shift_of_moved {next : Stage} (hc : s.At n stage mailbox) (hcalls : mid.calls = s.calls)
    (hreg : mid.registry = s.registry) (hsame : next.request = stage.request) :
    Shift s.registry [] (mid.moveCall n next).registry := by
  have htrack : s.registry.track n = Call.track ⟨next, mailbox⟩ := by
    rw [Call.track, hsame]
    exact track_of_get? hc
  rw [registry_moved hc hcalls hreg, Registry.put_self htrack]
  exact .quiet

end Steps

theorem complete_shift (hread : s.reader = .reading) (response : Rpc.Response) :
    Shift s.registry [.heard response] (s.complete response).registry := by
  rw [complete]
  split
  · next hnone =>
    refine .unsolicited hread fun id hid => ?_
    rw [hnone] at hid
    cases hid
  · next id hid =>
    split
    · next n hget =>
      split at hget
      · next hpos =>
        have hcast : (id.toNat : Int) = id := Int.toNat_of_nonneg hpos
        rw [registry_deliver]
        exact .handed hread (by rw [hid, hcast]) hget
      · cases hget
    · next hget =>
      refine .unsolicited hread fun id' hid' => ?_
      obtain rfl : id = id' := Option.some.inj (hid.symm.trans hid')
      change s.pending.get? id' = none
      simpa using hget

theorem handle_shift (hread : s.reader = .reading) (payload : List UInt8) :
    Shift s.registry (heardIn (Rpc.Message.ofPayload payload)) (s.handle payload).registry := by
  rw [handle]
  cases Rpc.Message.ofPayload payload with
  | error e => exact .quiet
  | ok message =>
    cases message with
    | response response => exact complete_shift hread response
    | serverRequest request => exact .quiet
    | notification notification =>
      dsimp only
      split <;> exact .quiet

theorem request_replaceSending (sending : Sending) (stage : Stage) :
    (replaceSending sending stage).request = stage.request := by
  unfold replaceSending
  split <;> rfl

/-- Whatever happens to a session, its registry makes one move, and that is what happens. -/
theorem Change.shift {e : Event} {hs : List Happening} (h : Change s e hs s') :
    Shift s.registry hs s'.registry := by
  cases h with
  | idle => exact .quiet
  | outside hnow => exact .quiet
  | @called n ask hc =>
    have htrack : s.registry.track n = none := by
      change (s.calls.get? n).bind Call.track = none
      rw [hc]
      rfl
    rw [registry_setCall, Registry.put_self (t := Call.track _) htrack]
    exact .quiet
  | opened hc => exact shift_of_put hc rfl (settled_openCall ..).registry
  | proceeded hc => exact shift_of_put hc rfl (settled_proceed hc).registry
  | looked hc hw => exact shift_of_put hc rfl (settled_drainCheck ..).registry
  | leaves hc hup | ends hc hup => exact shift_of_moved hc rfl rfl rfl
  | @registered n method params deadline purpose mailbox hc =>
    have hreg := registry_setCall { s with
      ids := ⟨s.ids.next + 1⟩, pending := s.pending.set s.ids.next n } n
      ⟨.working (.exchange (.registered ⟨s.ids.next, method, params⟩ s.ids.next)) deadline purpose,
        none⟩
    exact hreg ▸ .registered (track_of_get? hc)
  | @tested n id request deadline purpose mailbox log hc hup =>
    have hcalls : ({ s with log } : Session).calls = s.calls := rfl
    rw [registry_moved hc hcalls rfl]
    exact @Shift.tested s.registry n ⟨id, false, mailbox⟩ (track_of_get? hc) hup
  | @foundHungUp n id request deadline purpose mailbox hc hup =>
    rw [(settled_finishWork ..).registry]
    exact @Shift.resolved s.registry n ⟨id, false, mailbox⟩ _ (track_of_get? hc) (.hungUp rfl hup)
  | sends hc hs | messageSends hc hs => exact shift_of_moved hc hs.calls_going hs.registry_going rfl
  | sent hc hs => exact shift_of_moved hc hs.calls_finished hs.registry_finished rfl
  | @unsent n id sending deadline purpose error mailbox mid hc hs =>
    -- The only thing that can go wrong here is that the writer is gone.
    cases hs with
    | closed hw hgone =>
      rw [(settled_finishWork ..).registry]
      exact @Shift.resolved s.registry n ⟨id, true, mailbox⟩ _ (track_of_get? hc) (.writerGone rfl)
  | @replied n id deadline purpose reply hc =>
    rw [(settled_finishWork ..).registry]
    exact @Shift.resolved s.registry n ⟨id, true, some reply⟩ _ (track_of_get? hc) (.replied rfl)
  | messageSent hc hs =>
    refine shift_of_put hc rfl ?_
    rw [(settled_finishWork ..).registry, hs.registry_finished]
  | expired hc hb hd => exact dropWork_shift hc (settled_expire ..).registry
  | givesUp hc hs | gaveUp hc hs | stops hc hs | stopped hc hs =>
    exact hs.shift hc rfl (registry_retire _ rfl)
  | @read payload inbox hread habort hrec =>
    exact handle_shift (s := { s with inbox }) hread payload
  | streamEnded hread => exact .ending hread
  | readerAborted hread habort => exact .aborted hread
  | marked hread => exact .marked hread
  | @cleared log hread =>
    have hreg : Session.registry { s.abandonPending with reader := .ended, log } =
        { s.registry.clear with reader := .ended } := by
      rw [← registry_abandonPending]
      rfl
    exact hreg ▸ .cleared hread
  | refusalBegun hr => exact .quiet
  | refusalSends hr hs => exact hs.registry_going ▸ .quiet
  | refusalSent hr hs => exact hs.registry_finished ▸ .quiet
  | taken hc hs => exact shift_of_moved hc rfl rfl (request_replaceSending ..)
  | refusalTaken hs => exact .quiet
  | @exchangeRefused n id payload rest deadline purpose mailbox cause hc =>
    rw [(settled_finishWork ..).registry]
    exact @Shift.resolved s.registry n ⟨id, true, mailbox⟩ _ (track_of_get? hc) (.unwritten rfl cause)
  | messageRefused hc => exact shift_of_put hc rfl (settled_finishWork ..).registry
  | refusalRefused hs => exact .quiet
  | @workDropped n work deadline purpose mailbox hc =>
    refine dropWork_shift hc ?_
    rw [← calls_dropWork s (.call n) work]
    exact registry_eraseCall _ n
  | closingDropped hc hst =>
    exact shift_of_put hc (request_of_waitsToClose hst) (registry_eraseCall (s.leaveQueue _) _)
  | dropped hc hw hst =>
    exact shift_of_put hc (request_of_not_working hw) (registry_eraseCall { s with closed := _ } _)

/-! ## Runs -/

theorem Recorded.run {hs : List Happening} (h : Recorded hs s.registry) (events : List Event) :
    Recorded (hs ++ s.journal events) (s.run events).registry := by
  induction events generalizing s hs with
  | nil =>
    rw [journal, List.append_nil]
    exact h
  | cons e events ih =>
    rw [journal, ← List.append_assoc]
    exact ih (h.shift (apply_change s e).shift)

section Start

variable (settings : SessionSettings) (filter : DocumentFilter) (label : String)
  (processId now : Nat)

theorem track_start (n : Nat) : (start settings filter label processId now).track n = none := by
  rw [track, start, Table.get?, Table.lookup_cons]
  split <;> rfl

theorem sound_start : Sound (start settings filter label processId now).registry := by
  have hnone := track_start settings filter label processId now
  refine ⟨List.nodup_nil, fun id n => ⟨nofun, ?_⟩, fun n t h => ?_, fun n m t u h => ?_,
    Nat.le_refl 1, nofun, nofun, nofun⟩
  · rintro ⟨t, h, -⟩
    exact absurd ((hnone n).symm.trans h) nofun
  · exact absurd ((hnone n).symm.trans h) nofun
  · exact absurd ((hnone n).symm.trans h) nofun

theorem recorded_start : Recorded [] (start settings filter label processId now).registry where
  sound := sound_start settings filter label processId now
  told n _ h := absurd ((track_start settings filter label processId now n).symm.trans h) nofun
  warranted _ _ _ h := absurd h (by simp)
  registeredOnce := List.nodup_nil
  registeredPast := nofun
  resolvedOnce := List.nodup_nil
  resolvedPast := nofun

/-- The record of every run from the start of a session fits. -/
theorem run_recorded (events : List Event) :
    Recorded ((start settings filter label processId now).journal events)
      ((start settings filter label processId now).run events).registry :=
  (recorded_start settings filter label processId now).run events

end Start

end Session

end LanguageClient
