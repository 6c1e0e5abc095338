import LanguageClient.Proofs.Session.Course

/-!
# What the frames of a session carry

Every frame that a session puts on the wire on its own account is made for a purpose, and the purpose
says what it carries: a request under its number, with the method that the purpose asks for, or the
notification that the purpose tells (`Purpose.Says`). A call carries its payload along from the step
that makes it to the step that finishes its frame, so the frames on the wire are genuine
(`dispatches_genuine`), and together they are all that has been sent (`sent_run`).
-/

namespace LanguageClient

def Sending.payload : Sending → List UInt8
  | .fresh payload | .queued payload | .writing payload _ => payload

def Purpose.Asks (greeting : Json) (method : String) (params : Option Json) : Purpose → Prop
  | .introduce => method = "initialize" ∧ params = some greeting
  | .shutdown => method = "shutdown" ∧ params = none
  | .answer => True
  | _ => False

def Purpose.Tells (notice : Rpc.Notification) : Purpose → Prop
  | .confirm _ => notice = initializedNotice
  | .leave _ => notice = exitNotice
  | .message _ => True
  | _ => False

/-- A payload is what a purpose has to say: under a number, a request, and a notification otherwise. -/
def Purpose.Says (greeting : Json) (payload : List UInt8) (purpose : Purpose) :
    Option Nat → Prop
  | some id => ∃ method params, purpose.Asks greeting method params ∧
      payload = (Rpc.Request.mk id method params).payload
  | none => ∃ notice, purpose.Tells notice ∧ payload = Rpc.Notification.payload notice

def Work.Genuine (greeting : Json) (purpose : Purpose) : Work → Prop
  | .exchange (.fresh method params) => purpose.Asks greeting method params
  | .exchange (.registered request id) => ∃ method params, purpose.Asks greeting method params ∧
      request = ⟨id, method, params⟩
  | .exchange (.sending id sending) => purpose.Says greeting sending.payload (some id)
  | .exchange (.awaiting _) => ∃ method params, purpose.Asks greeting method params
  | .send sending => purpose.Says greeting sending.payload none

def Stage.Genuine (greeting : Json) : Stage → Prop
  | .working work _ purpose => work.Genuine greeting purpose
  | _ => True

theorem Work.genuine_carrying {greeting : Json} {purpose : Purpose} {id : Option Nat}
    {sending : Sending} :
    (Work.carrying id sending).Genuine greeting purpose ↔
      purpose.Says greeting sending.payload id := by
  cases id <;> exact Iff.rfl

theorem Stage.Follows.genuine {purpose : Purpose} {stage : Stage} (h : Stage.Follows purpose stage)
    (greeting : Json) : stage.Genuine greeting := by
  cases h with
  | confirms => exact ⟨initializedNotice, rfl, rfl⟩
  | leaves => exact ⟨exitNotice, rfl, rfl⟩
  | _ => trivial

namespace Session

/-- A frame carries what its purpose says. -/
def Dispatch.Genuine (greeting : Json) (d : Dispatch) : Prop :=
  ∀ purpose, d.purpose = some purpose → purpose.Says greeting d.payload d.id

namespace View

def Genuine (h : View) : Prop :=
  ∀ n stage, h.stage n = some stage → stage.Genuine h.greeting

variable {h k h' : View} {n : Nat}

theorem Genuine.put (hg : h.Genuine) (hgreeting : k.greeting = h.greeting)
    (hstage : k.stage = h.stage) {next : Option Stage}
    (hnext : ∀ stage, next = some stage → stage.Genuine h.greeting) : (k.put n next).Genuine := by
  intro m stage hm
  change stage.Genuine k.greeting
  rw [hgreeting]
  rcases put_stage_eq_some.mp hm with ⟨-, heq⟩ | ⟨-, hm⟩
  · exact hnext stage heq
  · exact hg m stage (hstage ▸ hm)

variable {hs : List Happening} {out : List Dispatch}

theorem Works.genuine {work next : Work} {purpose : Purpose}
    (hw : Works h n work hs out k next purpose) (hg : work.Genuine h.greeting purpose) :
    next.Genuine h.greeting purpose ∧ ∀ d ∈ out, d.Genuine h.greeting := by
  cases hw with
  | registers => exact ⟨⟨_, _, hg, rfl⟩, List.forall_mem_nil _⟩
  | tests hup =>
    obtain ⟨method, params, hasks, rfl⟩ := hg
    exact ⟨⟨method, params, hasks, rfl⟩, List.forall_mem_nil _⟩
  | joins | takes hhead hwriter =>
    have hsays := Work.genuine_carrying.mp hg
    exact ⟨Work.genuine_carrying.mpr hsays, List.forall_mem_nil _⟩
  | written =>
    obtain ⟨method, params, hasks, hpayload⟩ := hg
    refine ⟨⟨method, params, hasks⟩, fun d hd purpose hpurpose => ?_⟩
    obtain rfl := List.mem_singleton.mp hd
    obtain rfl := Option.some.inj hpurpose
    exact ⟨method, params, hasks, hpayload⟩

theorem Ends.genuine {work : Work} {result : Except SessionError Json} {purpose : Purpose}
    (he : Ends h n work hs out k result purpose) (hg : work.Genuine h.greeting purpose) :
    ∀ d ∈ out, d.Genuine h.greeting := by
  cases he with
  | written =>
    intro d hd purpose hpurpose
    obtain rfl := List.mem_singleton.mp hd
    obtain rfl := Option.some.inj hpurpose
    exact hg
  | _ => exact List.forall_mem_nil _

theorem Moves.genuine {stage next : Stage} (hm : Moves h n stage hs out k next)
    (hg : stage.Genuine h.greeting) :
    next.Genuine h.greeting ∧ ∀ d ∈ out, d.Genuine h.greeting := by
  cases hm with
  | opens | departs hup => exact ⟨⟨rfl, rfl⟩, List.forall_mem_nil _⟩
  | asks => exact ⟨trivial, List.forall_mem_nil _⟩
  | tells => exact ⟨⟨_, trivial, rfl⟩, List.forall_mem_nil _⟩
  | works hw => exact hw.genuine hg
  | ends he => exact ⟨(Purpose.follows_next ..).genuine _, he.genuine hg⟩
  | expires hb hlate => exact ⟨(Purpose.follows_late ..).genuine _, List.forall_mem_nil _⟩
  | _ => exact ⟨trivial, List.forall_mem_nil _⟩

/-- Every move leaves the calls of the view with what they have to say, and puts nothing else on the
wire. -/
theorem Genuine.step {e : Event} (hg : h.Genuine) (hcourse : h.Course e hs out h') :
    h'.greeting = h.greeting ∧ h'.Genuine ∧ ∀ d ∈ out, d.Genuine h.greeting := by
  have hnothing : ∀ d ∈ ([] : List Dispatch), d.Genuine h.greeting := List.forall_mem_nil _
  cases hcourse with
  | quiet hheard | elapsed hnow | reader hread hup | refusalJoins | refusalLeaves =>
    exact ⟨rfl, hg, hnothing⟩
  | refusalWritten =>
    refine ⟨rfl, hg, fun d hd purpose hpurpose => ?_⟩
    rw [List.mem_singleton.mp hd] at hpurpose
    cases hpurpose
  | called hn =>
    refine ⟨rfl, hg.put rfl rfl fun stage heq => ?_, hnothing⟩
    obtain rfl := Option.some.inj heq
    trivial
  | dropped hn =>
    refine ⟨rfl, hg.put rfl rfl fun stage heq => ?_, hnothing⟩
    cases heq
  | moved hn hm =>
    obtain ⟨hnext, hout⟩ := hm.genuine (hg _ _ hn)
    have hgreeting := hm.around.greeting
    refine ⟨hgreeting, hg.put hgreeting hm.around.stage fun stage heq => ?_, hout⟩
    obtain rfl := Option.some.inj heq
    exact hnext
  | poured id hn =>
    have hsays := Work.genuine_carrying.mp (hg _ _ hn)
    refine ⟨rfl, hg.put rfl rfl fun stage heq => ?_, hnothing⟩
    obtain rfl := Option.some.inj heq
    exact Work.genuine_carrying.mpr hsays
  | refused id hn =>
    refine ⟨rfl, hg.put rfl rfl fun stage heq => ?_, hnothing⟩
    obtain rfl := Option.some.inj heq
    exact (Purpose.follows_next ..).genuine _

theorem Course.sent {e : Event} (hcourse : h.Course e hs out h') :
    h'.sent = h.sent ++ out.map (·.payload) := by
  cases hcourse with
  | refusalWritten => rfl
  | moved hn hm => exact hm.around.sent
  | _ => exact (List.append_nil _).symm

end View

/-! ## Runs -/

/-- The frames that a run puts on the wire completely, in order. -/
def dispatches (s : Session) : List Event → List Dispatch
  | [] => []
  | e :: events => s.posted e ++ (s.apply e).dispatches events

variable {s : Session}

theorem sent_run (hl : Lined s) (events : List Event) :
    (s.run events).sent = s.sent ++ (s.dispatches events).map (·.payload) := by
  induction events generalizing s with
  | nil => exact (List.append_nil _).symm
  | cons e events ih =>
    have hsent : (s.apply e).sent = s.sent ++ (s.posted e).map (·.payload) := (course hl e).sent
    have hrest : ((s.apply e).run events).sent =
        (s.apply e).sent ++ ((s.apply e).dispatches events).map (·.payload) := ih (hl.apply e)
    rw [dispatches, List.map_append, ← List.append_assoc, ← hsent]
    exact hrest

theorem dispatches_genuine (hl : Lined s) (hg : s.view.Genuine) (events : List Event) :
    ∀ d ∈ s.dispatches events, d.Genuine s.view.greeting := by
  induction events generalizing s with
  | nil => exact List.forall_mem_nil _
  | cons e events ih =>
    obtain ⟨hgreeting, hg', hout⟩ := hg.step (course hl e)
    intro d hd
    rcases List.mem_append.mp hd with hd | hd
    · exact hout d hd
    · exact hgreeting ▸ ih (hl.apply e) hg' d hd

theorem genuine_start (settings : SessionSettings) (filter : DocumentFilter) (label : String)
    (processId now : Nat) : (start settings filter label processId now).view.Genuine := by
  intro n stage hn
  obtain ⟨-, rfl⟩ := stageOf_start_eq_some hn
  trivial

end Session

end LanguageClient
