import LanguageClient.Proofs.Session.Course

/-!
# The phases of a session's life

The life of a session has a few phases: it has not begun, its handshake is under way, the handshake
has failed, the session runs, it is being stopped, it has stopped. In each phase a call can have
certain roles only (`Phase.allows`): the handshake, which is call zero, is there at the beginning,
nobody but guests that are turned away is there before the handshake has succeeded, and one call at
most winds the session up. `Ordered` says that a view keeps to its phase, and `Ordered.step` that
every move keeps the view in its phase or takes it to the next.

The phase also tells who has the writer: `Manned` says that it is there until the one call that may
take it away has done so, and that the reader has ended by the time the session is over.
-/

namespace LanguageClient

def SessionError.isOpening : SessionError → Bool
  | .handshake _ | .timeout .opening _ => true
  | _ => false

@[simp] theorem SessionError.isOpening_asHandshake (e : SessionError) :
    e.asHandshake.isOpening = true := by
  cases e <;> rfl

/-! ## Roles

A role is what remains of a stage if one only asks what the call may yet do to the session as a
whole. -/

/-- What a call is to the session at a moment. -/
inductive Role where
  /-- The handshake before its first step. -/
  | begins
  | opens
  /-- A handshake that has succeeded. -/
  | started
  | failed
  /-- Traffic that has not been looked at. -/
  | guest
  /-- Traffic that was let in, and whoever is about to stop the session. -/
  | visits
  /-- The call that stops the session. -/
  | closes
  | over
  /-- What a call never is. -/
  | stray
  deriving DecidableEq

/-- Whether the call is one that may take the writer away. -/
def Role.isPrincipal : Role → Bool
  | .begins | .opens | .closes => true
  | _ => false

def Role.isDone : Role → Bool
  | .started | .failed | .over => true
  | _ => false

def Purpose.role (deadline : Option Nat) : Purpose → Role
  | .answer | .message _ => if deadline.isSome then .stray else .visits
  | .introduce | .confirm _ => .opens
  | .shutdown | .leave _ => .closes

def Outcome.role : Outcome → Role
  | .started => .started
  | .failed e => if e.isOpening then .failed else .over
  | _ => .over

def Stage.role : Stage → Role
  | .fresh .opening => .begins
  | .fresh .stop => .visits
  | .fresh _ => .guest
  | .admitted _ => .visits
  | .working _ deadline purpose => purpose.role deadline
  | .draining previous _ _ | .drained previous =>
    if previous = .running then .closes else .stray
  | .givingUp _ e => if e.isOpening then .opens else .stray
  | .ending _ _ => .closes
  | .over outcome => outcome.role

theorem Role.isPrincipal_of_isDone {role : Role} (h : role.isDone = true) :
    role.isPrincipal = false := by
  cases role <;> first | rfl | cases h

/-- A call keeps its role, or it is a user's call and is done. -/
def Role.Leads (a b : Role) : Prop := b = a ∨ a.isPrincipal = false ∧ a.isDone = false ∧ b.isDone = true

theorem Outcome.role_isDone (outcome : Outcome) : outcome.role.isDone = true := by
  cases outcome with
  | failed e =>
    rw [Outcome.role]
    split <;> rfl
  | _ => rfl

theorem Purpose.role_user {purpose : Purpose} (deadline : Option Nat)
    (h : purpose = .answer ∨ ∃ outcome, purpose = .message outcome) :
    (purpose.role deadline).isPrincipal = false ∧ (purpose.role deadline).isDone = false := by
  rcases h with rfl | ⟨outcome, rfl⟩ <;> cases deadline <;> exact ⟨rfl, rfl⟩

/-- Work that comes to a result leaves the role as it is, or ends a user's call; only the last message
of the handshake does more. -/
theorem Purpose.role_next (purpose : Purpose) {reads : Handshake.Decoder}
    (deadline deadline' : Option Nat) {result : Except SessionError Json}
    (h : ∀ introduction value, purpose = .confirm introduction → result ≠ .ok value) :
    (purpose.role deadline').Leads (purpose.next reads deadline result).role := by
  cases purpose with
  | answer =>
    obtain ⟨hp, hd⟩ := Purpose.role_user deadline' (.inl rfl)
    exact .inr ⟨hp, hd, Outcome.role_isDone _⟩
  | message outcome =>
    obtain ⟨hp, hd⟩ := Purpose.role_user deadline' (.inr ⟨outcome, rfl⟩)
    cases result with
    | ok v => exact .inr ⟨hp, hd, Outcome.role_isDone outcome⟩
    | error e => exact .inr ⟨hp, hd, Outcome.role_isDone (.failed e)⟩
  | introduce =>
    left
    cases result with
    | error e => simp [Purpose.next, Stage.role, Purpose.role]
    | ok v =>
      simp only [Purpose.next]
      split <;> simp [Stage.role, Purpose.role]
  | confirm introduction =>
    left
    cases result with
    | error e => simp [Purpose.next, Stage.role, Purpose.role]
    | ok v => exact absurd rfl (h introduction v rfl)
  | shutdown => exact .inl rfl
  | leave outcome => exact .inl rfl

theorem Purpose.role_late (purpose : Purpose) (deadline opening closing : Nat) :
    (purpose.role (some deadline)).Leads (purpose.late opening closing).role := by
  have hdone := Outcome.role_isDone (.failed (.timeout .closing closing))
  cases purpose with
  | introduce | confirm introduction | shutdown | leave outcome => exact .inl rfl
  | answer | message outcome => exact .inr ⟨rfl, rfl, hdone⟩

namespace Session

/-! ## Phases

A phase allows some roles and fixes the state that the session shows. A move then owes little: the
role of one call changes as it may (`Role.Leads`), or the phase turns. -/

inductive Phase where
  | unbegun
  | starting
  | failed
  | running
  | stopping
  | stopped
  deriving DecidableEq

namespace Phase

def state : Phase → SessionState
  | .unbegun | .failed | .stopped => .stopped
  | .starting => .starting
  | .running => .running
  | .stopping => .stopping

def introduced : Phase → Bool
  | .unbegun | .starting | .failed => false
  | .running | .stopping | .stopped => true

def opener : Phase → Role
  | .unbegun => .begins
  | .starting => .opens
  | .failed => .failed
  | .running | .stopping | .stopped => .started

def allows (c : Phase) (role : Role) : Bool :=
  match role with
  | .guest | .over | .failed | .started => true
  | .visits => c.introduced
  | .closes => c == .stopping
  | .begins | .opens | .stray => false

/-- What role call `n` can have in a phase. -/
def Fits (c : Phase) (n : Nat) (role : Role) : Prop :=
  if n = 0 then role = c.opener else c.allows role = true

/-- A phase stays, or the next one begins. -/
inductive Turns : Phase → Phase → Prop where
  | stays (c : Phase) : Turns c c
  | begins : Turns .unbegun .starting
  | fails : Turns .starting .failed
  | succeeds : Turns .starting .running
  | halts : Turns .running .stopping
  | ends : Turns .stopping .stopped

variable {c c' : Phase} {n : Nat} {a b : Role}

theorem fits_zero (h : a = c.opener) : c.Fits 0 a := by
  rw [Fits, if_pos rfl]
  exact h

theorem fits_of_ne (hn : n ≠ 0) (h : c.allows a = true) : c.Fits n a := by
  rw [Fits, if_neg hn]
  exact h

theorem allows_of_isDone (h : a.isDone = true) : c.allows a = true := by
  cases a <;> first | rfl | cases h

theorem Fits.leads (h : c.Fits n a) (hl : a.Leads b) : c.Fits n b := by
  rcases hl with rfl | ⟨hp, hd, hdone⟩
  · exact h
  · by_cases hn : n = 0
    · -- Call zero is a principal or done.
      rw [Fits, if_pos hn] at h
      subst h
      cases c <;> simp [opener, Role.isPrincipal, Role.isDone] at hp hd
    · exact fits_of_ne hn (allows_of_isDone hdone)

theorem Fits.begins (h : c.Fits n .begins) : n = 0 ∧ c = .unbegun := by
  unfold Fits at h
  split at h
  · next hn => cases c <;> simp_all [opener]
  · cases h

theorem Fits.opens (h : c.Fits n .opens) : n = 0 ∧ c = .starting := by
  unfold Fits at h
  split at h
  · next hn => cases c <;> simp_all [opener]
  · cases h

theorem Fits.closes (h : c.Fits n .closes) : n ≠ 0 ∧ c = .stopping := by
  unfold Fits at h
  split at h
  · next hn => cases c <;> simp_all [opener]
  · next hn => exact ⟨hn, eq_of_beq h⟩

theorem Fits.visits (h : c.Fits n .visits) : n ≠ 0 ∧ c.introduced = true := by
  unfold Fits at h
  split at h
  · next hn => cases c <;> simp_all [opener]
  · next hn => exact ⟨hn, h⟩

theorem Fits.guest (h : c.Fits n .guest) : n ≠ 0 := by
  rintro rfl
  cases c <;> cases h

theorem Fits.not_stray (h : c.Fits n .stray) : False := by
  unfold Fits at h
  split at h
  · cases c <;> cases h
  · cases h

theorem running_of_busy (hintro : c.introduced = true)
    (hstate : c.state = .running ∨ c.state = .starting) : c = .running := by
  cases c <;> simp_all [introduced, state]

/-- The next phase has a place for everybody who has one in this phase, but for whoever stops the
session. -/
theorem Turns.fits (h : c.Turns c') (hn : n ≠ 0 ∨ c.introduced = true) (hfits : c.Fits n a)
    (hne : a ≠ .closes) : c'.Fits n a := by
  by_cases hzero : n = 0
  · have hintro := hn.resolve_left (absurd hzero)
    rw [Fits, if_pos hzero] at hfits ⊢
    cases h <;> first | exact hfits | cases hintro
  · rw [Fits, if_neg hzero] at hfits ⊢
    cases h <;> cases a <;> first | exact absurd rfl hne | exact hfits | cases hfits

end Phase

/-- What can happen to a session: its handshake is made once, by whoever begins it, and nobody has a
session to stop before the handshake has succeeded. -/
def Event.Proper (introduced : Bool) : Event → Prop
  | .call n ask => n ≠ 0 ∧ ask ≠ .opening ∧ (ask = .stop → introduced = true)
  | _ => True

/-- An event that can happen to a session. -/
def Proper (s : Session) (e : Event) : Prop := e.Proper s.introduction.isSome

/-- Something holds at every event of a run. -/
def Throughout (P : Session → Event → Prop) (s : Session) : List Event → Prop
  | [] => True
  | e :: events => P s e ∧ Throughout P (s.apply e) events

instance decidableThroughout {P : Session → Event → Prop} [∀ s e, Decidable (P s e)] :
    (s : Session) → (events : List Event) → Decidable (Throughout P s events)
  | _, [] => .isTrue trivial
  | s, e :: events =>
    haveI := decidableThroughout (P := P) (s.apply e) events
    inferInstanceAs (Decidable (P s e ∧ Throughout P (s.apply e) events))

/-- A view keeps to a phase. -/
structure Ordered (c : Phase) (h : View) : Prop where
  state : h.state = c.state
  introduced : h.introduction.isSome = c.introduced
  fits : ∀ n stage, h.stage n = some stage → c.Fits n stage.role
  single : ∀ n m a b, h.stage n = some a → h.stage m = some b → a.role = .closes →
    b.role = .closes → n = m

namespace Ordered

variable {c : Phase} {h k h' : View} {n : Nat} {stage next : Stage}

theorem of_put {d : Phase} (hstate : k.state = d.state)
    (hintro : k.introduction.isSome = d.introduced) (hnext : d.Fits n next.role)
    (hothers : ∀ m a, m ≠ n → k.stage m = some a → d.Fits m a.role)
    (hsingle : ∀ m l a b, k.stage m = some a → k.stage l = some b → a.role = .closes →
      b.role = .closes → m = l)
    (hclose : next.role = .closes → ∀ m a, m ≠ n → k.stage m = some a → a.role ≠ .closes) :
    Ordered d (k.put n (some next)) := by
  refine ⟨hstate, hintro, fun m a hm => ?_, fun m l a b hm hl ha hb => ?_⟩
  · rcases View.put_stage_eq_some.mp hm with ⟨rfl, heq⟩ | ⟨hne, hm⟩
    · exact Option.some.inj heq ▸ hnext
    · exact hothers m a hne hm
  · rcases View.put_stage_eq_some.mp hm with ⟨hmn, heqa⟩ | ⟨hmn, hm⟩ <;>
      rcases View.put_stage_eq_some.mp hl with ⟨hln, heqb⟩ | ⟨hln, hl⟩
    · exact hmn.trans hln.symm
    · exact absurd hb (hclose (Option.some.inj heqa ▸ ha) l b hln hl)
    · exact absurd ha (hclose (Option.some.inj heqb ▸ hb) m a hmn hm)
    · exact hsingle m l a b hm hl ha hb

theorem stay (ho : Ordered c h) (hn : h.stage n = some stage) (hstate : k.state = h.state)
    (hintro : k.introduction = h.introduction) (hstage : k.stage = h.stage)
    (hnext : c.Fits n next.role) (hclose : next.role = .closes → stage.role = .closes) :
    Ordered c (k.put n (some next)) := by
  refine of_put (hstate.trans ho.state) (hintro ▸ ho.introduced) hnext ?_ ?_ ?_
  · rw [hstage]
    exact fun m a _ hm => ho.fits m a hm
  · rw [hstage]
    exact ho.single
  · rw [hstage]
    exact fun hc m a hne hm ha => hne (ho.single m n a stage hm hn ha (hclose hc))

theorem turn {d : Phase} (ho : Ordered c h) (ht : c.Turns d) (hstate : k.state = d.state)
    (hintro : k.introduction.isSome = d.introduced) (hstage : k.stage = h.stage)
    (hzero : n = 0 ∨ c.introduced = true) (hnext : d.Fits n next.role)
    (hclose : ∀ m a, m ≠ n → h.stage m = some a → a.role ≠ .closes) :
    Ordered d (k.put n (some next)) := by
  refine of_put hstate hintro hnext ?_ ?_ ?_
  · rw [hstage]
    refine fun m a hne hm => ht.fits ?_ (ho.fits m a hm) (hclose m a hne hm)
    exact hzero.imp_left fun heq hm => hne (hm.trans heq.symm)
  · rw [hstage]
    exact ho.single
  · rw [hstage]
    exact fun _ => hclose

theorem no_closer (ho : Ordered c h) (hc : c ≠ .stopping) (m : Nat) (a : Stage)
    (hm : h.stage m = some a) : a.role ≠ .closes := fun ha =>
  hc (Phase.Fits.closes (ha ▸ ho.fits m a hm)).2

theorem leads (ho : Ordered c h) (hn : h.stage n = some stage) (hstate : k.state = h.state)
    (hintro : k.introduction = h.introduction) (hstage : k.stage = h.stage)
    (hl : stage.role.Leads next.role) : ∃ d, c.Turns d ∧ Ordered d (k.put n (some next)) := by
  refine ⟨c, .stays c, ho.stay hn hstate hintro hstage ((ho.fits n stage hn).leads hl) ?_⟩
  intro hclose
  rcases hl with heq | ⟨-, -, hdone⟩
  · exact heq ▸ hclose
  · rw [hclose] at hdone
    cases hdone

theorem role_fresh {ask : Ask} (h : ask.isTraffic = true) : (Stage.fresh ask).role = .guest := by
  cases ask <;> first | rfl | cases h

theorem running_of_state (ho : Ordered c h) (hstate : h.state = .running) : c = .running := by
  have heq := ho.state.symm.trans hstate
  cases c <;> first | rfl | cases heq

/-- The errors that a handshake closes the stream with are those that handshakes fail with. -/
theorem isOpening_of_givingUp {closing : Closing} {error : SessionError} (ho : Ordered c h)
    (hn : h.stage n = some (.givingUp closing error)) : error.isOpening = true := by
  have hfits := ho.fits n _ hn
  by_cases herror : error.isOpening = true
  · exact herror
  · simp only [Stage.role, if_neg herror] at hfits
    exact hfits.not_stray.elim

theorem ended {work : Work} {deadline : Option Nat} {purpose : Purpose}
    {result : Except SessionError Json} (ho : Ordered c h)
    (hn : h.stage n = some (.working work deadline purpose)) (hstate : k.state = h.state)
    (hintro : k.introduction = h.introduction) (hstage : k.stage = h.stage) :
    ∃ d, c.Turns d ∧ Ordered d ((k.settle purpose result).put n
      (some (purpose.next h.reads deadline result))) := by
  by_cases hopen : ∃ introduction value, purpose = .confirm introduction ∧ result = .ok value
  · obtain ⟨introduction, value, rfl, rfl⟩ := hopen
    obtain ⟨rfl, rfl⟩ := Phase.Fits.opens (ho.fits n _ hn)
    exact ⟨.running, .succeeds, ho.turn .succeeds rfl rfl hstage (.inl rfl) (Phase.fits_zero rfl)
      fun m a _ hm => ho.no_closer nofun m a hm⟩
  · rw [View.settle_of_not_confirmed hopen]
    refine ho.leads hn hstate hintro hstage (purpose.role_next deadline deadline ?_)
    exact fun introduction value hp hr => hopen ⟨introduction, value, hp, hr⟩

theorem of_moves {hs : List Happening} {out : List Dispatch} (ho : Ordered c h)
    (hn : h.stage n = some stage) (hm : View.Moves h n stage hs out k next) :
    ∃ d, c.Turns d ∧ Ordered d (k.put n (some next)) := by
  have hfits := ho.fits n stage hn
  cases hm with
  | opens =>
    obtain ⟨rfl, rfl⟩ := hfits.begins
    exact ⟨.starting, .begins, ho.turn .begins rfl ho.introduced rfl (.inl rfl)
      (Phase.fits_zero rfl) fun m a _ hm => ho.no_closer nofun m a hm⟩
  | stopsIdle hstate | ignores => exact ho.leads hn rfl rfl rfl (.inr ⟨rfl, rfl, rfl⟩)
  | @halts previous deadline wakeAt hstate hbusy =>
    obtain ⟨hne, hintro⟩ := hfits.visits
    have heq := hstate.symm.trans ho.state
    obtain rfl := Phase.running_of_busy hintro (heq ▸ hbusy)
    obtain rfl : previous = .running := heq
    exact ⟨.stopping, .halts, ho.turn .halts rfl ho.introduced rfl (.inr rfl)
      (Phase.fits_of_ne hne rfl) fun m a _ hm => ho.no_closer nofun m a hm⟩
  | admits hask hstate hup =>
    rw [role_fresh hask] at hfits
    obtain rfl := ho.running_of_state hstate
    exact ⟨.running, .stays _, ho.stay hn rfl rfl rfl (Phase.fits_of_ne hfits.guest rfl) nofun⟩
  | rejects hask hdoor herror =>
    refine ho.leads hn rfl rfl rfl (.inr ?_)
    rw [role_fresh hask]
    exact ⟨rfl, rfl, Outcome.role_isDone (.failed _)⟩
  | asks | tells | looks | drains | departs hup => exact ho.leads hn rfl rfl rfl (.inl rfl)
  | works hw =>
    obtain ⟨hstate, hintro, -, -, hstage⟩ := hw.keeps
    exact ho.leads hn hstate hintro hstage (.inl rfl)
  | ends he =>
    obtain ⟨hstate, hintro, -, -, hstage⟩ := he.keeps
    exact ho.ended hn hstate hintro hstage
  | expires hb hlate => exact ho.leads hn rfl rfl rfl (Purpose.role_late ..)
  | @quits previous hup =>
    by_cases hprev : previous = .running
    · refine ho.leads hn rfl rfl rfl (.inl ?_)
      simp [Stage.role, hprev]
    · simp only [Stage.role, if_neg hprev] at hfits
      exact hfits.not_stray.elim
  | givesUp hs | closes hs =>
    obtain ⟨hstate, hintro, hstage⟩ := hs.keeps
    exact ho.leads hn hstate hintro hstage (.inl rfl)
  | gaveUp =>
    have herror := ho.isOpening_of_givingUp hn
    simp only [Stage.role, if_pos herror] at hfits
    obtain ⟨rfl, rfl⟩ := hfits.opens
    refine ⟨.failed, .fails, ho.turn .fails rfl ho.introduced rfl (.inl rfl)
      (Phase.fits_zero ?_) fun m a _ hm => ho.no_closer nofun m a hm⟩
    simp [Stage.role, Outcome.role, herror, Phase.opener]
  | @closed result =>
    obtain ⟨hne, rfl⟩ := hfits.closes
    refine ⟨.stopped, .ends, ho.turn .ends rfl ho.introduced rfl (.inr rfl)
      (Phase.fits_of_ne hne ?_) fun m a hm hma ha => hm (ho.single m n a _ hma hn ha rfl)⟩
    exact Phase.allows_of_isDone (Outcome.role_isDone _)

/-- Every move keeps the view in its phase or takes it to the next. -/
theorem step {e : Event} {hs : List Happening} {out : List Dispatch} (ho : Ordered c h)
    (hcourse : h.Course e hs out h') (hproper : e.Proper h.introduction.isSome) :
    ∃ d, c.Turns d ∧ Ordered d h' := by
  have hsame : ∀ {k : View}, k.state = h.state → k.introduction = h.introduction →
      k.stage = h.stage → ∃ d, c.Turns d ∧ Ordered d k := by
    intro k hstate hintro hstage
    refine ⟨c, .stays c, hstate.trans ho.state, hintro ▸ ho.introduced, ?_, ?_⟩
    · rw [hstage]
      exact ho.fits
    · rw [hstage]
      exact ho.single
  cases hcourse with
  | quiet hheard | elapsed hnow | reader hread hup | refusalJoins | refusalLeaves
  | refusalWritten =>
    exact hsame rfl rfl rfl
  | @called n ask hn =>
    obtain ⟨hne, hopening, hstop⟩ := hproper
    have hrole : c.allows (Stage.fresh ask).role = true ∧ (Stage.fresh ask).role ≠ .closes := by
      cases ask with
      | opening => exact absurd rfl hopening
      | stop => exact ⟨ho.introduced.symm.trans (hstop rfl), nofun⟩
      | _ => exact ⟨rfl, nofun⟩
    refine ⟨c, .stays c, of_put ho.state ho.introduced (Phase.fits_of_ne hne hrole.1)
      (fun m a _ hm => ho.fits m a hm) ho.single fun hclose => absurd hclose hrole.2⟩
  | @dropped n stage hn =>
    refine ⟨c, .stays c, ho.state, ho.introduced, fun m a hm => ?_, fun m l a b hm hl => ?_⟩
    · rcases View.put_stage_eq_some.mp hm with ⟨-, heq⟩ | ⟨-, hm⟩
      · cases heq
      · exact ho.fits m a hm
    · rcases View.put_stage_eq_some.mp hm with ⟨-, heq⟩ | ⟨-, hm⟩
      · cases heq
      · rcases View.put_stage_eq_some.mp hl with ⟨-, heq⟩ | ⟨-, hl⟩
        · cases heq
        · exact ho.single m l a b hm hl
  | moved hn hm => exact ho.of_moves hn hm
  | poured id hn => exact ho.leads hn rfl rfl rfl (.inl rfl)
  | refused id hn => exact ho.leads hn rfl rfl rfl (Purpose.role_next _ _ _ nofun)

/-- Whoever may take the writer away does so at the beginning or while the session is stopped. -/
theorem place_of_principal (ho : Ordered c h) (hn : h.stage n = some stage)
    (hrole : stage.role.isPrincipal = true) :
    n = 0 ∧ (c = .unbegun ∨ c = .starting) ∨ stage.role = .closes ∧ c = .stopping := by
  have hfits := ho.fits n stage hn
  cases heq : stage.role <;> rw [heq] at hfits hrole
  case begins => exact .inl ⟨hfits.begins.1, .inl hfits.begins.2⟩
  case opens => exact .inl ⟨hfits.opens.1, .inr hfits.opens.2⟩
  case closes => exact .inr ⟨rfl, hfits.closes.2⟩
  all_goals cases hrole

theorem principal_unique {m : Nat} {a b : Stage} (ho : Ordered c h) (hn : h.stage n = some a)
    (hm : h.stage m = some b) (ha : a.role.isPrincipal = true) (hb : b.role.isPrincipal = true) :
    n = m := by
  rcases ho.place_of_principal hn ha with ⟨hn0, hc⟩ | ⟨hclose, hc⟩ <;>
    rcases ho.place_of_principal hm hb with ⟨hm0, hc'⟩ | ⟨hclose', hc'⟩
  · exact hn0.trans hm0.symm
  · rcases hc with hc | hc <;> rw [hc] at hc' <;> cases hc'
  · rcases hc' with hc' | hc' <;> rw [hc] at hc' <;> cases hc'
  · exact ho.single n m a b hn hm hclose hclose'

end Ordered

/-! ## Who has the writer

The writer is taken away by a principal only, of which there is one at most. So the stage of that
call tells whether the writer is there. -/

end Session

/-- Whether the writer has been taken away by the time that closing has come this far. -/
def Closing.hasTaken : Closing → Bool
  | .fresh | .queued => false
  | _ => true

def Stage.hasTaken : Stage → Bool
  | .givingUp closing _ | .ending closing _ => closing.hasTaken
  | _ => false

/-- Whether the call is about to give up the requests that are left. -/
def Stage.abandons : Stage → Bool
  | .givingUp .abandoning _ | .ending .abandoning _ => true
  | _ => false

theorem Stage.Follows.hasTaken {purpose : Purpose} {stage : Stage}
    (h : Stage.Follows purpose stage) : stage.hasTaken = false ∧ stage.abandons = false := by
  cases h <;> exact ⟨rfl, rfl⟩

namespace Session

/-- The writer is there until the call that may take it away has done so, and the reader has ended
before the requests that are left are given up. -/
structure Manned (c : Phase) (h : View) : Prop where
  principal : ∀ n stage, h.stage n = some stage → stage.role.isPrincipal = true →
    h.writer = !stage.hasTaken
  running : c = .running → h.writer = true
  vacant : c = .failed ∨ c = .stopped → h.writer = false ∧ h.reader = .ended
  abandoning : ∀ n stage, h.stage n = some stage → stage.abandons = true → h.reader = .ended

theorem Phase.Turns.eq_of_state {c d : Phase} (h : c.Turns d) (heq : d.state = c.state) :
    d = c := by
  cases h <;> first | rfl | cases heq

namespace Manned

variable {c d : Phase} {h k h' : View} {n : Nat} {stage next : Stage}

theorem put (hm : Manned c h) (hstage : k.stage = h.stage) (hwriter : k.writer = h.writer)
    (hreader : k.reader = h.reader)
    (hprincipal : next.role.isPrincipal = true → h.writer = !next.hasTaken)
    (habandon : next.abandons = true → h.reader = .ended) (hrun : d = .running → h.writer = true)
    (hover : d = .failed ∨ d = .stopped → h.writer = false ∧ h.reader = .ended) :
    Manned d (k.put n (some next)) := by
  refine ⟨fun m a hma hrole => ?_, fun hd => hwriter.trans (hrun hd), fun hd => ?_,
    fun m a hma ha => ?_⟩
  · rcases View.put_stage_eq_some.mp hma with ⟨-, heq⟩ | ⟨-, hma⟩
    · obtain rfl := Option.some.inj heq
      exact hwriter.trans (hprincipal hrole)
    · exact hwriter.trans (hm.principal m a (hstage ▸ hma) hrole)
  · exact ⟨hwriter.trans (hover hd).1, hreader.trans (hover hd).2⟩
  · rcases View.put_stage_eq_some.mp hma with ⟨-, heq⟩ | ⟨-, hma⟩
    · obtain rfl := Option.some.inj heq
      exact hreader.trans (habandon ha)
    · exact hreader.trans (hm.abandoning m a (hstage ▸ hma) ha)

theorem put_over {outcome : Outcome} (hm : Manned c h) (hstage : k.stage = h.stage)
    (hwriter : k.writer = h.writer) (hreader : k.reader = h.reader)
    (hrun : d = .running → h.writer = true)
    (hover : d = .failed ∨ d = .stopped → h.writer = false ∧ h.reader = .ended) :
    Manned d (k.put n (some (.over outcome))) := by
  refine hm.put hstage hwriter hreader (fun hrole => ?_) nofun hrun hover
  rw [Stage.role, Role.isPrincipal_of_isDone outcome.role_isDone] at hrole
  cases hrole

theorem stay (hm : Manned c h) (hn : h.stage n = some stage) (hstage : k.stage = h.stage)
    (hwriter : k.writer = h.writer) (hreader : k.reader = h.reader)
    (hl : stage.role.Leads next.role) (htaken : next.hasTaken = stage.hasTaken)
    (habandon : next.abandons = true → h.reader = .ended) : Manned c (k.put n (some next)) := by
  refine hm.put hstage hwriter hreader (fun hrole => ?_) habandon hm.running hm.vacant
  rcases hl with heq | ⟨-, -, hdone⟩
  · rw [hm.principal n stage hn (heq ▸ hrole), htaken]
  · rw [Role.isPrincipal_of_isDone hdone] at hrole
    cases hrole

theorem shuts {closing closing' : Closing} (hm : Manned c h) (ho : Ordered c h)
    (hn : h.stage n = some stage) (hs : View.Shuts h n closing k closing')
    (hrole : stage.role.isPrincipal = true) (hsame : next.role = stage.role)
    (htaken : stage.hasTaken = closing.hasTaken) (htaken' : next.hasTaken = closing'.hasTaken)
    (habandons : next.abandons = (closing' == .abandoning)) :
    Manned c (k.put n (some next)) := by
  have hstay : k.stage = h.stage → k.writer = h.writer → k.reader = h.reader →
      closing'.hasTaken = closing.hasTaken → (closing' = .abandoning → h.reader = .ended) →
      Manned c (k.put n (some next)) := by
    intro hstage hwriter hreader heq habandon
    refine hm.stay hn hstage hwriter hreader (.inl hsame) ?_ fun ha => habandon ?_
    · rw [htaken', htaken, heq]
    · rw [habandons] at ha
      exact eq_of_beq ha
  cases hs with
  | joins | shuts | aborts => exact hstay rfl rfl rfl rfl nofun
  | takes hhead hnext =>
    have hgone : next.hasTaken = true := by
      rw [htaken']
      rcases hnext with rfl | rfl <;> rfl
    have hkeeps : next.abandons ≠ true := by
      rw [habandons]
      rcases hnext with rfl | rfl <;> nofun
    have hbusy : c ≠ .running ∧ ¬ (c = .failed ∨ c = .stopped) := by
      rcases ho.place_of_principal hn hrole with ⟨-, rfl | rfl⟩ | ⟨-, rfl⟩ <;>
        exact ⟨nofun, nofun⟩
    refine ⟨fun m a hma ha => ?_, fun hc => absurd hc hbusy.1, fun hc => absurd hc hbusy.2,
      fun m a hma ha => ?_⟩
    · rcases View.put_stage_eq_some.mp hma with ⟨-, heq⟩ | ⟨hne, hma⟩
      · obtain rfl := Option.some.inj heq
        rw [hgone]
        rfl
      · exact absurd (ho.principal_unique hma hn ha hrole) hne
    · rcases View.put_stage_eq_some.mp hma with ⟨-, heq⟩ | ⟨-, hma⟩
      · obtain rfl := Option.some.inj heq
        exact absurd ha hkeeps
      · exact hm.abandoning m a hma ha
  | joined hreader => exact hstay rfl rfl rfl rfl fun _ => hreader

/-- Whatever a call is doing at its last step of closing the stream, the writer is gone by then, and
the reader has ended. -/
theorem gone (hm : Manned c h) (hn : h.stage n = some stage)
    (hrole : stage.role.isPrincipal = true) (htaken : stage.hasTaken = true)
    (habandon : stage.abandons = true) : h.writer = false ∧ h.reader = .ended := by
  refine ⟨?_, hm.abandoning n stage hn habandon⟩
  rw [hm.principal n stage hn hrole, htaken]
  rfl

theorem ended {work : Work} {deadline : Option Nat} {purpose : Purpose}
    {result : Except SessionError Json} (hm : Manned c h) (ho : Ordered c h)
    (hn : h.stage n = some (.working work deadline purpose)) (hkeep : h.Alike k) (ht : c.Turns d)
    (ho' : Ordered d ((k.settle purpose result).put n
      (some (purpose.next h.reads deadline result)))) :
    Manned d ((k.settle purpose result).put n (some (purpose.next h.reads deadline result))) := by
  have hstate := ho'.state
  obtain ⟨hkeep, -, hreader, hwriter, hstage⟩ := hkeep
  by_cases hopen : ∃ introduction value, purpose = .confirm introduction ∧ result = .ok value
  · obtain ⟨introduction, value, rfl, rfl⟩ := hopen
    refine hm.put_over hstage hwriter hreader (fun _ => hm.principal n _ hn rfl) fun hd => ?_
    rcases hd with rfl | rfl <;> cases hstate
  · rw [View.settle_of_not_confirmed hopen] at hstate ⊢
    obtain rfl := ht.eq_of_state (hstate.symm.trans (hkeep.trans ho.state))
    obtain ⟨htaken, habandon⟩ := (purpose.follows_next h.reads deadline result).hasTaken
    refine hm.stay hn hstage hwriter hreader (purpose.role_next deadline deadline ?_) htaken fun ha => ?_
    · exact fun introduction value hp hr => hopen ⟨introduction, value, hp, hr⟩
    · rw [habandon] at ha
      cases ha

theorem of_moves {hs : List Happening} {out : List Dispatch} (hm : Manned c h) (ho : Ordered c h)
    (hn : h.stage n = some stage) (hmove : View.Moves h n stage hs out k next) (ht : c.Turns d)
    (ho' : Ordered d (k.put n (some next))) : Manned d (k.put n (some next)) := by
  have hfits := ho.fits n stage hn
  have hstate := ho'.state
  have hsame : k.state = h.state → d = c := fun heq =>
    ht.eq_of_state (hstate.symm.trans (heq.trans ho.state))
  have hstay : k.state = h.state → k.stage = h.stage → k.writer = h.writer → k.reader = h.reader →
      stage.role.Leads next.role → next.hasTaken = stage.hasTaken → next.abandons = false →
      Manned d (k.put n (some next)) := by
    intro heq hstage hwriter hreader hl htaken habandon
    obtain rfl := hsame heq
    refine hm.stay hn hstage hwriter hreader hl htaken fun ha => ?_
    rw [habandon] at ha
    cases ha
  cases hmove with
  | opens =>
    refine hm.put rfl rfl rfl (fun _ => hm.principal n (.fresh .opening) hn rfl) nofun ?_ ?_
    · rintro rfl
      cases hstate
    · rintro (rfl | rfl) <;> cases hstate
  | stopsIdle hidle | ignores => exact hstay rfl rfl rfl rfl (.inr ⟨rfl, rfl, rfl⟩) rfl rfl
  | halts hprev hbusy =>
    obtain ⟨hne, hintro⟩ := hfits.visits
    have hrun := Phase.running_of_busy hintro ((hprev.symm.trans ho.state) ▸ hbusy)
    refine hm.put rfl rfl rfl (fun _ => hm.running hrun) nofun ?_ ?_
    · rintro rfl
      cases hstate
    · rintro (rfl | rfl) <;> cases hstate
  | admits hask hrun hup =>
    obtain rfl := hsame rfl
    exact hm.put rfl rfl rfl nofun nofun hm.running hm.vacant
  | rejects hask hdoor herror =>
    obtain rfl := hsame rfl
    exact hm.put_over rfl rfl rfl hm.running hm.vacant
  | asks | tells | looks | drains | departs hup => exact hstay rfl rfl rfl rfl (.inl rfl) rfl rfl
  | works hw =>
    obtain ⟨hkeep, -, hreader, hwriter, hstage⟩ := hw.keeps
    exact hstay hkeep hstage hwriter hreader (.inl rfl) rfl rfl
  | ends he => exact hm.ended ho hn he.keeps ht ho'
  | expires hb hlate =>
    exact hstay rfl rfl rfl rfl (Purpose.role_late ..) (Purpose.follows_late ..).hasTaken.1
      (Purpose.follows_late ..).hasTaken.2
  | @quits previous hup =>
    by_cases hprev : previous = .running
    · subst hprev
      exact hstay rfl rfl rfl rfl (.inl rfl) rfl rfl
    · simp only [Stage.role, if_neg hprev] at hfits
      exact hfits.not_stray.elim
  | @givesUp closing closing' error _ hs =>
    obtain rfl := hsame hs.keeps.1
    have hrole : (Stage.givingUp closing error).role.isPrincipal = true := by
      simp [Stage.role, ho.isOpening_of_givingUp hn, Role.isPrincipal]
    exact hm.shuts ho hn hs hrole rfl rfl rfl (by cases closing' <;> rfl)
  | @gaveUp error =>
    have hrole : (Stage.givingUp .abandoning error).role.isPrincipal = true := by
      simp [Stage.role, ho.isOpening_of_givingUp hn, Role.isPrincipal]
    refine hm.put_over rfl rfl rfl ?_ fun _ => hm.gone hn hrole rfl rfl
    rintro rfl
    cases hstate
  | @closes closing closing' result _ hs =>
    obtain rfl := hsame hs.keeps.1
    exact hm.shuts ho hn hs rfl rfl rfl rfl (by cases closing' <;> rfl)
  | closed =>
    refine hm.put_over rfl rfl rfl ?_ fun _ => hm.gone hn rfl rfl rfl
    rintro rfl
    cases hstate

theorem step {e : Event} {hs : List Happening} {out : List Dispatch} (hm : Manned c h)
    (ho : Ordered c h) (hcourse : h.Course e hs out h')
    (hproper : e.Proper h.introduction.isSome) (ht : c.Turns d) (ho' : Ordered d h') :
    Manned d h' := by
  have hsame : h'.state = h.state → d = c := fun heq =>
    ht.eq_of_state (ho'.state.symm.trans (heq.trans ho.state))
  cases hcourse with
  | quiet hheard =>
    obtain rfl := hsame rfl
    exact hm
  | elapsed hnow | refusalJoins | refusalLeaves | refusalWritten =>
    obtain rfl := hsame rfl
    exact ⟨hm.principal, hm.running, hm.vacant, hm.abandoning⟩
  | reader hread hup =>
    obtain rfl := hsame rfl
    exact ⟨hm.principal, hm.running, fun hc => absurd (hm.vacant hc).2 hread,
      fun n a hn ha => absurd (hm.abandoning n a hn ha) hread⟩
  | @called n ask hn =>
    obtain rfl := hsame rfl
    refine hm.put rfl rfl rfl (fun hrole => ?_) nofun hm.running hm.vacant
    cases ask with
    | opening => exact absurd rfl hproper.2.1
    | _ => cases hrole
  | @dropped n stage hn =>
    obtain rfl := hsame rfl
    refine ⟨fun m a hma => ?_, hm.running, hm.vacant, fun m a hma => ?_⟩
    · rcases View.put_stage_eq_some.mp hma with ⟨-, heq⟩ | ⟨-, hma⟩
      · cases heq
      · exact hm.principal m a hma
    · rcases View.put_stage_eq_some.mp hma with ⟨-, heq⟩ | ⟨-, hma⟩
      · cases heq
      · exact hm.abandoning m a hma
  | moved hn hmove => exact hm.of_moves ho hn hmove ht ho'
  | poured id hn =>
    obtain rfl := hsame rfl
    exact hm.stay hn rfl rfl rfl (.inl rfl) rfl nofun
  | @refused n id payload rest deadline purpose cause hn =>
    obtain rfl := hsame rfl
    obtain ⟨htaken, habandon⟩ :=
      (purpose.follows_next h.reads deadline (.error (.transport (.io cause)))).hasTaken
    refine hm.stay hn rfl rfl rfl (purpose.role_next _ _ nofun) htaken fun ha => ?_
    rw [habandon] at ha
    cases ha

end Manned

/-! ## Runs -/

/-- A session in a phase of its life. -/
structure Governed (c : Phase) (s : Session) : Prop where
  lined : Lined s
  ordered : Ordered c s.view
  manned : Manned c s.view

variable {s : Session} {c : Phase}

theorem Governed.apply {e : Event} (hg : Governed c s) (hproper : s.Proper e) :
    ∃ d, c.Turns d ∧ Governed d (s.apply e) := by
  have hcourse := course hg.lined e
  obtain ⟨d, ht, ho⟩ := hg.ordered.step hcourse hproper
  exact ⟨d, ht, hg.lined.apply e, ho, hg.manned.step hg.ordered hcourse hproper ht ho⟩

theorem Governed.run {events : List Event} (hg : Governed c s)
    (hproper : Throughout Proper s events) : ∃ d, Governed d (s.run events) := by
  induction events generalizing s c with
  | nil => exact ⟨c, hg⟩
  | cons e events ih =>
    obtain ⟨d, -, hg'⟩ := hg.apply hproper.1
    exact ih hg' hproper.2

section Start

variable (settings : SessionSettings) (filter : DocumentFilter) (label : String)
  (processId now : Nat)

theorem governed_start : Governed .unbegun (start settings filter label processId now) := by
  refine ⟨lined_start .., ⟨rfl, rfl, fun n stage hn => ?_, fun n m a b hn hm _ _ => ?_⟩,
    ⟨fun n stage hn _ => ?_, nofun, nofun, fun n stage hn ha => ?_⟩⟩
  · obtain ⟨rfl, rfl⟩ := stageOf_start_eq_some hn
    exact Phase.fits_zero rfl
  · exact (stageOf_start_eq_some hn).1.trans (stageOf_start_eq_some hm).1.symm
  · obtain ⟨-, rfl⟩ := stageOf_start_eq_some hn
    rfl
  · obtain ⟨-, rfl⟩ := stageOf_start_eq_some hn
    cases ha

end Start

end Session

end LanguageClient
