import LanguageClient.Proofs.Session.Dispatches
import LanguageClient.Proofs.Session.GivingUp
import LanguageClient.Proofs.Session.HangUp

/-!
# From the start of a session to its end

A session is stopped, starts, runs, is being stopped and is stopped again, or it starts and fails:
`states` is what it shows in the course of a run, and it follows the phases (`Governed.states_run`).
It runs from the moment at which the handshake is done, and no earlier: `Greeted` follows call zero
through the handshake, from the request that asks the server for its introduction, which is the first
request of all, over the reply that has been heard, to the message that confirms it.
`lifecycle` puts this together for every run.
-/

namespace LanguageClient

theorem Table.eq_empty_of_get? {α : Type} {t : Table α} (h : ∀ k, t.get? k = none) : t = {} := by
  obtain ⟨entries⟩ := t
  cases entries with
  | nil => rfl
  | cons e rest =>
    have hfirst := h e.1
    rw [Table.get?, Table.lookup_cons, if_pos rfl] at hfirst
    cases hfirst

theorem SessionError.isOpening_iff {e : SessionError} : e.isOpening = true ↔
    (∃ detail, e = .handshake detail) ∨ ∃ millis, e = .timeout .opening millis := by
  constructor
  · intro h
    unfold SessionError.isOpening at h
    split at h
    · exact .inl ⟨_, rfl⟩
    · exact .inr ⟨_, rfl⟩
    · cases h
  · rintro (⟨detail, rfl⟩ | ⟨millis, rfl⟩) <;> rfl

namespace Session

/-! ## The states that a session shows -/

def states (s : Session) : List Event → List SessionState
  | [] => [s.state]
  | e :: events =>
    if (s.apply e).state = s.state then (s.apply e).states events
    else s.state :: (s.apply e).states events

def Phase.past : Phase → List SessionState
  | .unbegun => []
  | .starting => [.stopped]
  | .failed | .running => [.stopped, .starting]
  | .stopping => [.stopped, .starting, .running]
  | .stopped => [.stopped, .starting, .running, .stopping]

theorem Phase.Turns.past {c d : Phase} (h : c.Turns d) (hne : d.state ≠ c.state) :
    d.past = c.past ++ [c.state] := by
  cases h with
  | stays => exact absurd rfl hne
  | _ => rfl

section States

variable {s : Session} {c : Phase}

theorem Governed.states_run {events : List Event} (hg : Governed c s)
    (hproper : Throughout Proper s events) :
    ∃ d, Governed d (s.run events) ∧ c.past ++ s.states events = d.past ++ [d.state] := by
  induction events generalizing s c with
  | nil => exact ⟨c, hg, congrArg (fun state => c.past ++ [state]) hg.ordered.state⟩
  | cons e events ih =>
    obtain ⟨c', hturns, hg'⟩ := hg.apply hproper.1
    obtain ⟨d, hd, hpast⟩ := ih hg' hproper.2
    refine ⟨d, hd, ?_⟩
    have hstate : s.state = c.state := hg.ordered.state
    have hstate' : (s.apply e).state = c'.state := hg'.ordered.state
    rw [states]
    split
    · next heq =>
      obtain rfl := hturns.eq_of_state (hstate'.symm.trans (heq.trans hstate))
      exact hpast
    · next hne =>
      rw [hstate, hstate'] at hne
      rw [hstate, ← hpast, hturns.past hne, List.append_assoc]
      rfl

theorem Phase.running_mem_iff (c : Phase) :
    SessionState.running ∈ c.past ++ [c.state] ↔ c.introduced = true := by
  cases c <;> decide

theorem Phase.shown (c : Phase) :
    c.past ++ [c.state] <+: [.stopped, .starting, .running, .stopping, .stopped] ∨
      c.past ++ [c.state] = [.stopped, .starting, .stopped] := by
  cases c <;> decide

end States

/-! ## The handshake -/

/-- The request for the server's introduction is on the wire, and it is the first request. -/
def Asked (out : List Dispatch) : Prop := ∃ d ∈ out, d.purpose = some .introduce ∧ d.id = some 1

/-- The first request has come to a result, which is read as the server's introduction. -/
def Answered (reads : Handshake.Decoder) (hs : List Happening)
    (introduction : Handshake.Introduction) : Prop :=
  ∃ v, .resolved 0 1 (.ok v) ∈ hs ∧ reads v = .ok introduction

theorem Asked.append {out : List Dispatch} (h : Asked out) (more : List Dispatch) :
    Asked (out ++ more) := by
  obtain ⟨d, hd, hasks⟩ := h
  exact ⟨d, List.mem_append_left _ hd, hasks⟩

theorem Answered.append {reads : Handshake.Decoder} {hs : List Happening}
    {introduction : Handshake.Introduction} (h : Answered reads hs introduction)
    (more : List Happening) : Answered reads (hs ++ more) introduction := by
  obtain ⟨v, hv, hdecoded⟩ := h
  exact ⟨v, List.mem_append_left _ hv, hdecoded⟩

end Session

open Session

/-- How far the request for the server's introduction has come. -/
def Work.Greets (out : List Dispatch) (next : Nat) : Work → Prop
  | .exchange (.fresh _ _) => next = 1
  | .exchange (.registered _ id) | .exchange (.sending id _) => id = 1
  | .exchange (.awaiting id) => id = 1 ∧ Asked out
  | .send _ => False

def Purpose.Greets (reads : Handshake.Decoder) (hs : List Happening) (out : List Dispatch)
    (next : Nat) (work : Work) : Purpose → Prop
  | .introduce => work.Greets out next
  | .confirm introduction => Asked out ∧ Answered reads hs introduction
  | _ => True

/-- How far the handshake has come when its call stands at this stage. -/
def Stage.Greets (reads : Handshake.Decoder) (hs : List Happening) (out : List Dispatch)
    (next : Nat) : Stage → Prop
  | .fresh .opening => next = 1
  | .working work _ purpose => purpose.Greets reads hs out next work
  | _ => True

theorem Work.Greets.append {work : Work} {out : List Dispatch} {next : Nat}
    (h : work.Greets out next) (more : List Dispatch) : work.Greets (out ++ more) next := by
  cases work with
  | send sending => exact h
  | exchange exchange =>
    cases exchange with
    | awaiting id => exact ⟨h.1, h.2.append more⟩
    | _ => exact h

theorem Stage.Greets.append {reads : Handshake.Decoder} {stage : Stage} {hs : List Happening}
    {out : List Dispatch} {next : Nat} (h : stage.Greets reads hs out next)
    (moreHs : List Happening) (moreOut : List Dispatch) :
    stage.Greets reads (hs ++ moreHs) (out ++ moreOut) next := by
  cases stage with
  | fresh ask => cases ask <;> exact h
  | working work deadline purpose =>
    cases purpose with
    | introduce => exact Work.Greets.append h moreOut
    | confirm introduction => exact ⟨h.1.append moreOut, h.2.append moreHs⟩
    | _ => trivial
  | _ => trivial

namespace Session

namespace View

variable {h k h' : View} {hs hs₀ : List Happening} {out out₀ : List Dispatch} {stage : Stage}
  {reads : Handshake.Decoder}

theorem Works.greets {work next : Work} {purpose : Purpose} {deadline : Option Nat}
    (hw : Works h 0 work hs out k next purpose)
    (hg : (Stage.working work deadline purpose).Greets reads hs₀ out₀ h.next) :
    (Stage.working next deadline purpose).Greets reads (hs₀ ++ hs) (out₀ ++ out) k.next := by
  cases purpose with
  | introduce =>
    cases hw with
    | registers => exact hg
    | tests hup => exact hg
    | @joins id => cases id <;> exact hg
    | @takes id => cases id <;> exact hg
    | @written id payload =>
      obtain rfl : id = 1 := hg
      exact ⟨rfl, _, List.mem_append_right _ (List.mem_singleton.mpr rfl), rfl, rfl⟩
  | confirm introduction => exact ⟨hg.1.append out, hg.2.append hs⟩
  | _ => trivial

theorem Ends.greets {work : Work} {result : Except SessionError Json} {purpose : Purpose}
    {deadline : Option Nat} {next : Nat} (he : Ends h 0 work hs out k result purpose)
    (hg : (Stage.working work deadline purpose).Greets h.reads hs₀ out₀ h.next) :
    (purpose.next h.reads deadline result).Greets h.reads (hs₀ ++ hs) (out₀ ++ out) next := by
  cases purpose with
  | introduce =>
    cases he with
    | hungUp hup => trivial
    | gone id hhead hwriter => trivial
    | written => exact hg.elim
    | @replied id reply =>
      obtain ⟨rfl, hasked⟩ : id = 1 ∧ Asked out₀ := hg
      cases hreply : reply.result with
      | error e => trivial
      | ok v =>
        cases hv : h.reads v with
        | error e =>
          simp only [Purpose.next, hv]
          trivial
        | ok introduction =>
          simp only [Purpose.next, hv]
          exact ⟨hasked.append _, v, List.mem_append_right _ (List.mem_singleton.mpr rfl), hv⟩
  | _ => cases result <;> trivial

theorem Moves.greets {next : Stage} (hm : Moves h 0 stage hs out k next)
    (hg : stage.Greets h.reads hs₀ out₀ h.next) :
    next.Greets h.reads (hs₀ ++ hs) (out₀ ++ out) k.next := by
  cases hm with
  | opens => exact hg
  | works hw => exact hw.greets hg
  | ends he => exact he.greets hg
  | @expires work deadline opening closing purpose hb hlate => cases purpose <;> trivial
  | _ => trivial

/-- The server's introduction is kept by the last step of the handshake, which finishes the message
that confirms it. -/
theorem Moves.introduction {n : Nat} {next : Stage} (hm : Moves h n stage hs out k next)
    (hgen : stage.Genuine h.greeting) :
    k.introduction = h.introduction ∨ ∃ work deadline introduction payload,
      stage = .working work deadline (.confirm introduction) ∧
      k.introduction = some introduction ∧
      out = [⟨.call n, some (.confirm introduction), none, payload⟩] := by
  cases hm with
  | works hw => exact .inl hw.keeps.introduction
  | @ends work hs out k result deadline purpose he =>
    have hkeep := he.keeps.introduction
    cases purpose with
    | confirm introduction =>
      cases he with
      | hungUp hup => exact .inl hkeep
      | gone id hhead hwriter => exact .inl hkeep
      | replied => obtain ⟨method, params, hasks⟩ := hgen; exact hasks.elim
      | @written payload => exact .inr ⟨_, _, introduction, payload, rfl, rfl, rfl⟩
    | _ => exact .inl hkeep
  | givesUp hs => exact .inl hs.keeps.2.1
  | closes hs => exact .inl hs.keeps.2.1
  | _ => exact .inl rfl

theorem Moves.next {n : Nat} {next : Stage} (hm : Moves h n stage hs out k next) :
    k.next = h.next ∨ ∃ exchange deadline purpose,
      stage = .working (.exchange exchange) deadline purpose := by
  cases hm with
  | works hw =>
    cases hw with
    | registers => exact .inr ⟨_, _, _, rfl⟩
    | _ => exact .inl rfl
  | @ends work hs out k result deadline purpose he =>
    obtain ⟨state, introduction, heq⟩ := settle_eq k purpose result
    rw [heq]
    exact .inl (by cases he <;> rfl)
  | givesUp hs => exact .inl (by cases hs <;> rfl)
  | closes hs => exact .inl (by cases hs <;> rfl)
  | _ => exact .inl rfl

end View

variable {c : Phase}

theorem Phase.Fits.introduced_of_purpose {n : Nat} {deadline : Option Nat} {purpose : Purpose}
    (h : c.Fits n (purpose.role deadline)) (hn : n ≠ 0) : c.introduced = true := by
  have huser : c.Fits n (if deadline.isSome then .stray else .visits) → c.introduced = true := by
    intro h
    split at h
    · exact h.not_stray.elim
    · exact h.visits.2
  cases purpose with
  | answer => exact huser h
  | message outcome => exact huser h
  | introduce => exact absurd h.opens.1 hn
  | confirm introduction => exact absurd h.opens.1 hn
  | shutdown => rw [h.closes.2]; rfl
  | leave outcome => rw [h.closes.2]; rfl

theorem Ordered.started {h : View} {stage : Stage} (ho : Ordered c h) (hc : c.introduced = true)
    (hzero : h.stage 0 = some stage) : stage = .over .started := by
  have hfits := ho.fits 0 stage hzero
  have hrole : stage.role = .started := by
    rw [Phase.Fits, if_pos rfl] at hfits
    rw [hfits]
    cases c <;> first | rfl | cases hc
  cases stage with
  | «over» outcome =>
    cases outcome with
    | started => rfl
    | failed e =>
      simp only [Stage.role, Outcome.role] at hrole
      split at hrole <;> cases hrole
    | _ => cases hrole
  | fresh ask => cases ask <;> cases hrole
  | working work deadline purpose =>
    cases purpose <;> simp only [Stage.role, Purpose.role] at hrole <;>
      first | cases hrole | (split at hrole <;> cases hrole)
  | draining previous deadline wakeAt | drained previous | givingUp closing e =>
    simp only [Stage.role] at hrole
    split at hrole <;> cases hrole
  | _ => cases hrole

/-- How the handshake of a view stands to the record and to what is on the wire. -/
structure Greeted (hs : List Happening) (out : List Dispatch) (h : View) : Prop where
  handshake : ∀ stage, h.stage 0 = some stage → stage.Greets h.reads hs out h.next
  introduced : ∀ introduction, h.introduction = some introduction →
    Asked out ∧ Answered h.reads hs introduction ∧
      ∃ d ∈ out, d.purpose = some (.confirm introduction)

namespace Greeted

variable {h k h' : View} {hs hs' : List Happening} {out out' : List Dispatch}

theorem append (hg : Greeted hs out h) (hs' : List Happening) (out' : List Dispatch) :
    Greeted (hs ++ hs') (out ++ out') h := by
  refine ⟨fun stage hzero => (hg.handshake stage hzero).append hs' out', fun introduction hi => ?_⟩
  obtain ⟨hasked, hanswered, d, hd, hpurpose⟩ := hg.introduced introduction hi
  exact ⟨hasked.append out', hanswered.append hs', d, List.mem_append_left _ hd, hpurpose⟩

/-- A view in which one call stands elsewhere, and nothing else that matters to the handshake is
different. -/
theorem put (hg : Greeted hs out h) {n : Nat} {next : Option Stage}
    (hreads : k.reads = h.reads) (hintro : k.introduction = h.introduction)
    (hstage : k.stage = h.stage) (hnext : k.next = h.next)
    (hn : ∀ stage, n = 0 → next = some stage → stage.Greets h.reads hs out h.next) :
    Greeted hs out (k.put n next) := by
  constructor
  · intro stage hzero
    change stage.Greets k.reads hs out k.next
    rw [hreads, hnext]
    rcases View.put_stage_eq_some.mp hzero with ⟨heq, hnext⟩ | ⟨-, hzero⟩
    · exact hn stage heq.symm hnext
    · exact hg.handshake stage (hstage ▸ hzero)
  · intro introduction hi
    change Asked out ∧ Answered k.reads hs introduction ∧ _
    rw [hreads]
    exact hg.introduced introduction (hintro ▸ hi)

theorem moved {n : Nat} {stage next : Stage} (hg : Greeted hs out h) (ho : Ordered c h)
    (hgen : h.Genuine) (hn : h.stage n = some stage) (hm : View.Moves h n stage hs' out' k next) :
    Greeted (hs ++ hs') (out ++ out') (k.put n (some next)) := by
  have hfits := ho.fits n stage hn
  have hstage := hm.around.stage
  have hreads : (k.put n (some next)).reads = h.reads := hm.around.reads
  constructor
  · intro st hzero
    rw [hreads]
    change st.Greets h.reads (hs ++ hs') (out ++ out') k.next
    rcases View.put_stage_eq_some.mp hzero with ⟨heq, hnext⟩ | ⟨hne, hzero⟩
    · obtain rfl := Option.some.inj hnext
      subst heq
      exact hm.greets (hg.handshake stage hn)
    · -- Another call takes a number, if at all, when the handshake is over.
      rw [hstage] at hzero
      rcases hm.next with hnext | ⟨exchange, deadline, purpose, rfl⟩
      · rw [hnext]
        exact (hg.handshake st hzero).append hs' out'
      · rw [ho.started (hfits.introduced_of_purpose (Ne.symm hne)) hzero]
        trivial
  · intro introduction hi
    rw [hreads]
    rcases hm.introduction (hgen n stage hn) with hkeep | ⟨work, deadline, i, payload, rfl, hi', rfl⟩
    · exact (hg.append hs' out').introduced introduction (hkeep.symm.trans hi)
    · obtain rfl : i = introduction := Option.some.inj (hi'.symm.trans hi)
      obtain ⟨rfl, -⟩ := hfits.opens
      obtain ⟨hasked, hanswered⟩ :=
        (hg.handshake _ hn).append hs' [⟨.call 0, some (.confirm i), none, payload⟩]
      exact ⟨hasked, hanswered, _, List.mem_append_right _ (List.mem_singleton.mpr rfl), rfl⟩

theorem step {e : Event} (hg : Greeted hs out h) (ho : Ordered c h) (hgen : h.Genuine)
    (hcourse : h.Course e hs' out' h') (hproper : e.Proper h.introduction.isSome) :
    Greeted (hs ++ hs') (out ++ out') h' := by
  have hmore := hg.append hs' out'
  cases hcourse with
  | quiet hheard => exact hmore
  | elapsed hnow | reader hread hup | refusalJoins | refusalLeaves | refusalWritten =>
    exact ⟨hmore.handshake, hmore.introduced⟩
  | called hn => exact hmore.put rfl rfl rfl rfl fun stage hzero => absurd hzero hproper.1
  | dropped hn =>
    refine hmore.put rfl rfl rfl rfl fun stage _ hnone => ?_
    cases hnone
  | moved hn hm => exact hg.moved ho hgen hn hm
  | @poured n count id payload rest rest' deadline purpose hn =>
    refine hmore.put rfl rfl rfl rfl fun stage hzero heq => ?_
    subst hzero
    obtain rfl := Option.some.inj heq
    have hgreets := hmore.handshake _ hn
    cases purpose with
    | introduce => cases id <;> exact hgreets
    | _ => exact hgreets
  | @refused n id payload rest deadline purpose cause hn =>
    refine hmore.put rfl rfl rfl rfl fun stage hzero heq => ?_
    obtain rfl := Option.some.inj heq
    cases purpose <;> trivial

end Greeted

/-! ## Runs -/

section Runs

variable {s : Session} {c : Phase} {hs : List Happening}

/-- What holds of a session at any moment of its life, given its record and its frames. -/
structure Chronicled (hs : List Happening) (out : List Dispatch) (s : Session) : Prop where
  recorded : Recorded hs s.registry
  genuine : s.view.Genuine
  warned : s.view.Warned
  greeted : Greeted hs out s.view

theorem Chronicled.apply {out : List Dispatch} {e : Event} (h : Chronicled hs out s)
    (hg : Governed c s) (hproper : s.Proper e) :
    Chronicled (hs ++ s.happenings e) (out ++ s.posted e) (s.apply e) := by
  have hcourse := course hg.lined e
  exact
    { recorded := h.recorded.shift (apply_change s e).shift
      genuine := (h.genuine.step hcourse).2.1
      warned := h.warned.step hcourse
      greeted := h.greeted.step hg.ordered h.genuine hcourse hproper }

theorem Chronicled.run {out : List Dispatch} {events : List Event} (h : Chronicled hs out s)
    (hg : Governed c s) (hproper : Throughout Proper s events) :
    Chronicled (hs ++ s.journal events) (out ++ s.dispatches events) (s.run events) := by
  induction events generalizing s c hs out with
  | nil =>
    rw [journal, dispatches, List.append_nil, List.append_nil]
    exact h
  | cons e events ih =>
    obtain ⟨d, -, hg'⟩ := hg.apply hproper.1
    rw [journal, dispatches, ← List.append_assoc, ← List.append_assoc]
    exact ih (h.apply hg hproper.1) hg' hproper.2

theorem chronicled_start (settings : SessionSettings) (filter : DocumentFilter) (label : String)
    (processId now : Nat) : Chronicled [] [] (start settings filter label processId now) := by
  refine ⟨recorded_start .., genuine_start settings filter label processId now,
    fun n closing e hn => ?_, fun stage hn => ?_, nofun⟩
  · cases (stageOf_start_eq_some hn).2
  · obtain rfl : .fresh .opening = stage := Option.some.inj hn
    rfl

theorem Answered.response {reads : Handshake.Decoder} {introduction : Handshake.Introduction}
    (h : Answered reads hs introduction) (hrec : Recorded hs s.registry) :
    ∃ pre post response, hs = pre ++ .registered 0 1 :: post ∧ FirstReply 1 response post ∧
      response.error = none ∧
      reads (response.result.getD .null) = .ok introduction := by
  obtain ⟨v, hv, hdecoded⟩ := h
  obtain ⟨before, after, rfl⟩ := List.append_of_mem hv
  obtain ⟨pre, post, rfl, hanswer⟩ := hrec.warranted before _ after rfl
  obtain ⟨response, hfirst, hresult⟩ := hanswer trivial
  refine ⟨pre, post ++ .resolved 0 1 (.ok v) :: after, response, by simp, hfirst.append _, ?_⟩
  rw [Reply.result] at hresult
  split at hresult
  · cases hresult
  · next hnone =>
    obtain rfl := Except.ok.inj hresult
    exact ⟨hnone, hdecoded⟩

theorem Governed.pending_of_failed (hg : Governed .failed s) (hsound : Sound s.registry) :
    s.pending = {} := by
  refine Table.eq_empty_of_get? fun id => ?_
  cases hp : s.pending.get? id with
  | none => rfl
  | some n =>
    obtain ⟨t, ht, -⟩ := (hsound.waiting id n).mp hp
    obtain ⟨stage, hc, hreq⟩ := track_eq_some ht
    have hfits := hg.ordered.fits n stage (stageOf_of_get? hc)
    cases stage with
    | working work deadline purpose =>
      by_cases hn : n = 0
      · rw [Phase.Fits, if_pos hn] at hfits
        cases purpose <;> simp [Stage.role, Purpose.role, Phase.opener] at hfits
        all_goals split at hfits <;> cases hfits
      · cases hfits.introduced_of_purpose hn
    | _ => cases hreq

/-- Traffic that comes while the session does not run is turned away, and that is all that happens. -/
theorem welcome_of_ne (hstate : s.state ≠ .running) :
    s.welcome = .error (.notRunning s.state) := by
  rw [welcome]
  cases heq : s.state with
  | running => exact absurd heq hstate
  | _ => rfl

end Runs

/-- What the life of a session has been like when `events` have happened to it. -/
structure Lifecycle (s : Session) (events : List Event) : Prop where
  /-- It has shown the states of a life, up to some point, or those of a handshake that failed. -/
  history : s.states events <+: [.stopped, .starting, .running, .stopping, .stopped] ∨
    s.states events = [.stopped, .starting, .stopped]
  /-- It has the server's introduction from the moment on at which it runs. -/
  introduced : (s.run events).introduction.isSome = true ↔ .running ∈ s.states events
  /-- The frames that it has sent are those of its calls and its refusals. -/
  frames : (s.run events).sent = (s.dispatches events).map (·.payload)
  /-- By then the request for the introduction has been sent under number one, the first response with
  that number since it was registered has been read, the introduction is what it says, and the message
  that confirms it has been sent. -/
  handshake : ∀ introduction, (s.run events).introduction = some introduction →
    (∃ d ∈ s.dispatches events, d.purpose = some .introduce ∧
      d.payload = (Rpc.Request.mk 1 "initialize" (some s.view.greeting)).payload) ∧
    (∃ pre post response, s.journal events = pre ++ .registered 0 1 :: post ∧
      FirstReply 1 response post ∧ response.error = none ∧
      s.settings.reads (response.result.getD .null) = .ok introduction) ∧
    ∃ d ∈ s.dispatches events, d.purpose = some (.confirm introduction) ∧
      d.payload = initializedNotice.payload
  /-- The handshake succeeds, or it fails as handshakes do, and then nothing is left of the session. -/
  outcome : ∀ outcome, (s.run events).stageOf 0 = some (.over outcome) →
    outcome = .started ∧ (s.run events).introduction.isSome = true ∨
    (∃ error, outcome = .failed error ∧
      ((∃ detail, error = .handshake detail) ∨ ∃ millis, error = .timeout .opening millis)) ∧
      (s.run events).state = .stopped ∧ (s.run events).introduction = none ∧
      (s.run events).writer = false ∧ (s.run events).pending = {}
  /-- A handshake that has failed returns its error, in every fair run in which its caller keeps
  waiting. -/
  fails : ∀ closing error, (s.run events).stageOf 0 = some (.givingUp closing error) →
    ∀ σ, Fair (s.run events) σ → (∀ k, σ k ≠ .drop 0) →
    ∃ k, ((s.run events).along σ k).stageOf 0 = some (.over (.failed error))
  /-- And so does, with an error or not, a handshake whose time is up. -/
  expires : ∀ work deadline purpose,
    (s.run events).stageOf 0 = some (.working work (some deadline) purpose) →
    deadline ≤ (s.run events).now → ∀ σ, Fair (s.run events) σ → (∀ k, σ k ≠ .drop 0) →
    ∃ k outcome, ((s.run events).along σ k).stageOf 0 = some (.over outcome) ∧
      (outcome = .started ∨ ∃ error : SessionError, outcome = .failed error ∧ error.isOpening = true)
  /-- A request, a notification or a document event that comes while the session does not run is told
  so, and that is all that happens. -/
  unwelcome : ∀ n ask mailbox, (s.run events).At n (.fresh ask) mailbox → ask.isTraffic = true →
    (s.run events).state ≠ .running →
    (s.run events).apply (.step (.call n)) =
      { s.run events with
        calls := (s.run events).calls.set n
          ⟨.over (.failed (.notRunning (s.run events).state)), mailbox⟩ }

theorem Governed.outcome {c : Phase} {s : Session} {outcome : Outcome} (hg : Governed c s)
    (hzero : s.stageOf 0 = some (.over outcome)) :
    outcome = .started ∧ c.introduced = true ∨
      (∃ error, outcome = .failed error ∧ error.isOpening = true) ∧ c = .failed := by
  have hfits := hg.ordered.fits 0 _ hzero
  rw [Phase.Fits, if_pos rfl] at hfits
  cases outcome with
  | started =>
    left
    cases c <;> first | exact ⟨rfl, rfl⟩ | cases hfits
  | failed error =>
    right
    by_cases herror : error.isOpening = true
    · refine ⟨⟨error, rfl, herror⟩, ?_⟩
      simp only [Stage.role, Outcome.role, if_pos herror] at hfits
      cases c <;> first | rfl | cases hfits
    · simp only [Stage.role, Outcome.role, if_neg herror] at hfits
      cases c <;> cases hfits
  | _ => cases c <;> cases hfits

theorem Governed.late {c : Phase} {s : Session} {work : Work} {deadline : Nat} {purpose : Purpose}
    {P : Outcome → Prop} (hg : Governed c s)
    (hzero : s.stageOf 0 = some (.working work (some deadline) purpose)) (hlate : deadline ≤ s.now)
    (hstarted : P .started) (hfailed : ∀ e : SessionError, e.isOpening = true → P (.failed e)) :
    s.view.Late P (.working work (some deadline) purpose) := by
  refine ⟨⟨deadline, rfl, hlate⟩, ?_, hstarted, hfailed⟩
  have hfits := hg.ordered.fits 0 _ hzero
  cases purpose with
  | introduce => exact .inl rfl
  | confirm introduction => exact .inr ⟨introduction, rfl⟩
  | answer | message outcome => exact (Phase.Fits.not_stray hfits).elim
  | shutdown | leave outcome => exact absurd rfl (Phase.Fits.closes hfits).1

/-- The life of a session, whatever calls are made, in whatever order tasks take their steps, whatever
the server sends and whenever it hangs up, whichever writes fail and whoever gives up. -/
theorem lifecycle (settings : SessionSettings) (filter : DocumentFilter) (label : String)
    (processId now : Nat) (events : List Event)
    (hproper : Throughout Proper (start settings filter label processId now) events) :
    Lifecycle (start settings filter label processId now) events := by
  have hstart := governed_start settings filter label processId now
  have hchronicled := (chronicled_start settings filter label processId now).run hstart hproper
  have hgenuine := dispatches_genuine hstart.lined
    (chronicled_start settings filter label processId now).genuine events
  obtain ⟨c, hg, hstates⟩ := hstart.states_run hproper
  rw [List.nil_append, List.nil_append] at hchronicled
  have hshown : (start settings filter label processId now).states events = c.past ++ [c.state] :=
    hstates
  have hintroduced : ((start settings filter label processId now).run events).introduction.isSome =
      c.introduced := hg.ordered.introduced
  refine
    { history := hshown ▸ c.shown
      introduced := by rw [hshown, hintroduced, c.running_mem_iff]
      frames := sent_run hstart.lined events
      handshake := fun introduction hi => ?_
      outcome := fun outcome hzero => ?_
      fails := fun closing error hzero σ hfair hkeep => ?_
      expires := fun work deadline purpose hzero hlate σ hfair hkeep => ?_
      unwelcome := fun n ask mailbox hc hask hstate => apply_of_denied hc
        (by rintro rfl; cases hask) (by rintro rfl; cases hask) (welcome_of_ne hstate) }
  · obtain ⟨⟨d, hd, hasks, hid⟩, hanswered, d', hd', hconfirms⟩ :=
      hchronicled.greeted.introduced introduction hi
    have hreads : ((start settings filter label processId now).run events).view.reads =
        settings.reads := congrArg SessionSettings.reads (settings_run ..)
    rw [hreads] at hanswered
    refine ⟨⟨d, hd, hasks, ?_⟩, hanswered.response hchronicled.recorded, d', hd', hconfirms, ?_⟩
    · have hsays := hgenuine d hd .introduce hasks
      rw [hid] at hsays
      obtain ⟨method, params, ⟨rfl, rfl⟩, hpayload⟩ := hsays
      exact hpayload
    · have hsays := hgenuine d' hd' (.confirm introduction) hconfirms
      cases hid' : d'.id with
      | some id =>
        rw [hid'] at hsays
        obtain ⟨method, params, hasks, -⟩ := hsays
        exact hasks.elim
      | none =>
        rw [hid'] at hsays
        obtain ⟨notice, rfl, hpayload⟩ := hsays
        exact hpayload
  · rcases hg.outcome hzero with ⟨rfl, hc⟩ | ⟨⟨error, rfl, herror⟩, rfl⟩
    · exact .inl ⟨rfl, hintroduced.trans hc⟩
    · exact .inr ⟨⟨error, rfl, SessionError.isOpening_iff.mp herror⟩, hg.ordered.state,
        Option.isSome_eq_false_iff.mp hintroduced |> Option.isNone_iff_eq_none.mp,
        (hg.manned.vacant (.inl rfl)).1, hg.pending_of_failed hchronicled.recorded.sound⟩
  · have hlate : View.Late _ (· = .failed error) (.givingUp closing error) :=
      ⟨rfl, hchronicled.warned 0 closing error hzero⟩
    obtain ⟨k, outcome, hover, rfl⟩ := hfair.handshake_returns hg.lined hzero hlate hkeep
    exact ⟨k, hover⟩
  · refine hfair.handshake_returns hg.lined hzero (hg.late hzero hlate (.inl rfl) ?_) hkeep
    exact fun error herror => .inr ⟨error, rfl, herror⟩

/-- A handshake that nobody answers, and a request that comes while it is under way. -/
def silence : List Event :=
  [.step (.call 0), .step (.call 0), .step (.call 0), .step (.call 0), .step (.call 0),
    .call 1 (.request "textDocument/hover" none), .step (.call 1), .pass 10000000000,
    .step (.call 0), .step (.call 0), .step (.call 0), .step (.call 0), .step (.call 0),
    .step .reader, .step (.call 0), .step (.call 0)]

/-- A handshake that succeeds, and a stop to which the server agrees. -/
def fullLife : List Event :=
  handshake ++ [Event.call 1 .stop] ++ List.replicate 6 (.step (.call 1)) ++ writes 1 ++
    hears 1 2 ++ [Event.step (.call 1)] ++ writes 1 ++ List.replicate 4 (.step (.call 1)) ++
    [Event.step .reader, .step (.call 1), .step (.call 1)]

end Session

def Stage.hasStopped : Stage → Bool
  | .over .stopped => true
  | _ => false

theorem Stage.eq_of_hasStopped {stage : Stage} (h : stage.hasStopped = true) :
    stage = .over .stopped := by
  unfold Stage.hasStopped at h
  split at h
  · rfl
  · cases h

namespace Session

theorem fullLife_proper : Throughout Proper (start {} {} "custom" 0 0) fullLife := by
  simp only [fullLife, handshake, writes, hears, Throughout, Proper, Event.Proper,
    List.replicate, List.cons_append, List.nil_append, true_and, and_true]
  refine ⟨by decide, by simp, fun _ => ?_⟩
  decide +kernel

/-- Either run is a life: one that ends with the handshake, and one that goes through all states. -/
theorem silence_and_fullLife_are_lives :
    (Throughout Proper (start {} {} "custom" 0 0) silence ∧
      (start {} {} "custom" 0 0).states silence = [.stopped, .starting, .stopped] ∧
      ((start {} {} "custom" 0 0).run silence).stageOf 0 =
        some (.over (.failed (.timeout .opening 10000))) ∧
      ((start {} {} "custom" 0 0).run silence).stageOf 1 =
        some (.over (.failed (.notRunning .starting))) ∧
      Lifecycle (start {} {} "custom" 0 0) silence) ∧
    Throughout Proper (start {} {} "custom" 0 0) fullLife ∧
      (start {} {} "custom" 0 0).states fullLife =
        [.stopped, .starting, .running, .stopping, .stopped] ∧
      ((start {} {} "custom" 0 0).run fullLife).introduction.isSome = true ∧
      ((start {} {} "custom" 0 0).run fullLife).stageOf 1 = some (.over .stopped) ∧
      Lifecycle (start {} {} "custom" 0 0) fullLife := by
  have hsilence : Throughout Proper (start {} {} "custom" 0 0) silence := by
    simp [silence, Throughout, Proper, Event.Proper]
  obtain ⟨hstates, hintroduced, hstopped⟩ :
      (start {} {} "custom" 0 0).states fullLife =
        [.stopped, .starting, .running, .stopping, .stopped] ∧
      ((start {} {} "custom" 0 0).run fullLife).introduction.isSome = true ∧
      (((start {} {} "custom" 0 0).run fullLife).stageOf 1).any Stage.hasStopped = true := by
    decide +kernel
  exact ⟨⟨hsilence, by decide +kernel, rfl, rfl, lifecycle {} {} "custom" 0 0 silence hsilence⟩,
    fullLife_proper, hstates, hintroduced, stageOf_of_any Stage.eq_of_hasStopped hstopped,
    lifecycle {} {} "custom" 0 0 fullLife fullLife_proper⟩

end Session

end LanguageClient
