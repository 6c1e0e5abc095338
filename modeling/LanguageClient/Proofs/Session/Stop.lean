import LanguageClient.Proofs.Session.Abandoned
import LanguageClient.Proofs.Session.Lifecycle

/-!
# What is settled when a session has been stopped

The call that stops a session drains it, asks the server to shut down, tells it to exit, takes the
writer away and gives up whoever is left. `Stage.Winds` follows this call through its stages and says
what it will report. `Pursued` follows a request that was outstanding when the call began: it keeps
its place in the queue before the one who takes the writer away, so it is written unless its write
fails, and then it has its response or is given up unanswered.
-/

namespace LanguageClient

namespace Session

/-! ## Places in the queue

Whoever is in the queue when stopping begins stands before the call that stops the session, and so
has its turn while the writer is still there. -/

/-- Task `u` does not stand in the queue before task `t`. -/
def Precedes (queue : List Task) (t u : Task) : Prop := u ∈ queue → [t, u].Sublist queue

theorem Precedes.step {q q' : List Task} {t u v : Task} (h : Precedes q t u)
    (hq : View.Queues v q q') (ht : t ∈ q) (ht' : t ∈ q') : Precedes q' t u := by
  intro hu
  rcases hq with rfl | rfl | rfl
  · exact h hu
  · by_cases huq : u ∈ q
    · exact (h huq).trans (List.sublist_append_left q [v])
    · have huv : u ∈ [v] := (List.mem_append.mp hu).resolve_left huq
      obtain rfl := List.mem_singleton.mp huv
      exact (List.singleton_sublist.mpr ht).append (List.Sublist.refl [u])
  · obtain ⟨huq, huv⟩ := List.mem_filter.mp hu
    have htv := (List.mem_filter.mp ht').2
    have hkeep : [t, u].filter (· != v) = [t, u] :=
      List.filter_eq_self.mpr (List.forall_mem_cons.mpr ⟨htv, List.forall_mem_singleton.mpr huv⟩)
    exact hkeep ▸ (h huq).filter (· != v)

theorem Precedes.head_ne {q : List Task} {t u : Task} (h : Precedes q t u) (hd : q.Nodup)
    (hne : t ≠ u) : q.head? ≠ some u := by
  intro hhead
  obtain ⟨rest, rfl⟩ := List.head?_eq_some_iff.mp hhead
  have hrest := (List.nodup_cons.mp hd).1
  rcases List.sublist_cons_iff.mp (h List.mem_cons_self) with hsub | ⟨r, heq, -⟩
  · exact hrest (hsub.subset (List.mem_cons_of_mem t List.mem_cons_self))
  · exact hne (List.cons.inj heq).1

/-! ## The call that stops the session

What this call returns depends on two things that it finds: whether the server has hung up by the
end of the drain, and what comes of the request to shut down. `Stage.Winds` carries both from stage
to stage. -/

/-- The result that a happening brings to the request of call `n`. -/
def Happening.resultOf (n : Nat) : Happening → Option (Except SessionError Json)
  | .resolved m _ result => if m = n then some result else none
  | _ => none

/-- What is reported of the end of a session, given the results of the request to shut down. -/
def Reports (results : List (Except SessionError Json)) (report : Except SessionError Unit) : Prop :=
  (∃ result, results = [result] ∧ report = result.map fun _ => ()) ∨
    results = [] ∧ ∃ millis, report = .error (.timeout .closing millis)

/-- A server that has hung up is not asked. -/
def Concludes (found : List Bool) (results : List (Except SessionError Json))
    (report : Except SessionError Unit) : Prop :=
  found = [true] ∧ results = [] ∧ report = .ok () ∨ found = [false] ∧ Reports results report

end Session

def Stage.isDrained : Stage → Bool
  | .drained _ => true
  | _ => false

/-- What a call that has drained its session finds when it goes on: whether the server has hung
up. -/
def Stage.finds (hungUp : Bool) (stage next : Option Stage) : List Bool :=
  if stage.any isDrained && !next.any isDrained then [hungUp] else []

variable {stage : Stage}

theorem Stage.finds_eq_nil {hungUp : Bool} (h : stage.isDrained = false) (next : Option Stage) :
    Stage.finds hungUp (some stage) next = [] := by
  simp [Stage.finds, h]

def Work.isExchange : Work → Bool
  | .exchange _ => true
  | .send _ => false

theorem Work.isExchange_carrying (id : Option Nat) (sending : Sending) :
    (Work.carrying id sending).isExchange = id.isSome := by
  cases id <;> rfl

theorem Work.carrying_eq_exchange {id : Option Nat} {sending sending' : Sending} {id' : Nat}
    (h : Work.carrying id sending = .exchange (.sending id' sending')) :
    id = some id' ∧ sending = sending' := by
  cases id with
  | none => cases h
  | some id =>
    cases h
    exact ⟨rfl, rfl⟩

/-- A call winds the session up, given what it has found and how its request has come out. -/
def Stage.Winds (found : List Bool) (results : List (Except SessionError Json)) : Stage → Prop
  | .draining previous _ _ | .drained previous =>
    previous = .running ∧ found = [] ∧ results = []
  | .working work _ .shutdown =>
    work.isExchange = true ∧ found = [false] ∧ results = []
  | .working work deadline (.leave report) =>
    work.isExchange = false ∧ deadline = none ∧ found = [false] ∧ Session.Reports results report
  | .ending _ report => Session.Concludes found results report
  | .over outcome => ∃ report, outcome = .ofStop report ∧ Session.Concludes found results report
  | _ => False

section Winds

variable {found : List Bool} {results : List (Except SessionError Json)}

theorem Stage.Winds.working {work next : Work} {deadline : Option Nat} {purpose : Purpose}
    (h : (Stage.working work deadline purpose).Winds found results)
    (hkind : next.isExchange = work.isExchange) :
    (Stage.working next deadline purpose).Winds found results := by
  cases purpose with
  | shutdown => exact ⟨hkind.trans h.1, h.2⟩
  | leave report => exact ⟨hkind.trans h.1, h.2⟩
  | _ => exact h

theorem Stage.Winds.next {work : Work} {deadline : Option Nat} {purpose : Purpose}
    {reads : Handshake.Decoder} (h : (Stage.working work deadline purpose).Winds found results)
    (result : Except SessionError Json) :
    (purpose.next reads deadline result).Winds found
      (results ++ if work.isExchange then [result] else []) := by
  cases purpose with
  | shutdown =>
    obtain ⟨hkind, rfl, rfl⟩ := h
    rw [if_pos hkind]
    exact ⟨rfl, rfl, rfl, .inl ⟨result, rfl, rfl⟩⟩
  | leave report =>
    obtain ⟨hkind, rfl, hfound, hreports⟩ := h
    rw [if_neg (Bool.eq_false_iff.mp hkind), List.append_nil]
    exact .inr ⟨hfound, hreports⟩
  | _ => exact h.elim

theorem Stage.Winds.role (h : stage.Winds found results) :
    stage.role = .closes ∨ ∃ outcome, stage = .over outcome := by
  cases stage with
  | draining previous deadline wakeAt =>
    left
    rw [Stage.role, if_pos h.1]
  | drained previous =>
    left
    rw [Stage.role, if_pos h.1]
  | working work deadline purpose => cases purpose <;> first | exact .inl rfl | exact h.elim
  | ending closing report => exact .inl rfl
  | «over» outcome => exact .inr ⟨outcome, rfl⟩
  | _ => exact h.elim

end Winds

namespace Session

theorem results_resolved (n : Nat) (id : Option Nat) (result : Except SessionError Json) :
    (id.toList.map fun id => Happening.resolved n id result).filterMap (·.resultOf n) =
      if id.isSome then [result] else [] := by
  cases id with
  | none => rfl
  | some id => simp [Happening.resultOf]

theorem results_eq_nil {n : Nat} {hs : List Happening}
    (h : ∀ id result, .resolved n id result ∉ hs) : hs.filterMap (·.resultOf n) = [] := by
  refine List.filterMap_eq_nil_iff.mpr fun x hx => ?_
  cases x with
  | resolved m id result =>
    refine if_neg ?_
    rintro rfl
    exact h id result hx
  | _ => rfl

namespace View

variable {h k h' : View} {n : Nat} {hs : List Happening} {out : List Dispatch} {e : Event}

theorem Works.isExchange {work next : Work} {purpose : Purpose}
    (hw : Works h n work hs out k next purpose) :
    next.isExchange = work.isExchange ∧ hs.filterMap (·.resultOf n) = [] := by
  cases hw with
  | registers | tests hup | written => exact ⟨rfl, rfl⟩
  | joins | takes hhead hwriter =>
    exact ⟨by rw [Work.isExchange_carrying, Work.isExchange_carrying], rfl⟩

theorem Ends.results {work : Work} {result : Except SessionError Json} {purpose : Purpose}
    (he : Ends h n work hs out k result purpose) :
    hs.filterMap (·.resultOf n) = if work.isExchange then [result] else [] := by
  cases he with
  | hungUp hup | replied => exact results_resolved n (some _) _
  | gone id hhead hwriter =>
    rw [Work.isExchange_carrying]
    exact results_resolved n id _
  | written => rfl

variable {found : List Bool} {results : List (Except SessionError Json)}

theorem Moves.winds {next : Stage} (hm : Moves h n stage hs out k next)
    (hwinds : stage.Winds found results) :
    next.Winds (found ++ Stage.finds h.hungUp (some stage) (some next))
      (results ++ hs.filterMap (·.resultOf n)) := by
  cases hm with
  | works hw =>
    obtain ⟨hkind, hnone⟩ := hw.isExchange
    rw [Stage.finds_eq_nil rfl, List.append_nil, hnone, List.append_nil]
    exact hwinds.working hkind
  | ends he =>
    rw [Stage.finds_eq_nil rfl, List.append_nil, he.results]
    exact hwinds.next _
  | @expires work deadline opening closing purpose hb hlate =>
    rw [Stage.finds_eq_nil rfl, List.append_nil, List.filterMap_nil, List.append_nil]
    cases purpose with
    | shutdown =>
      obtain ⟨-, rfl, rfl⟩ := hwinds
      exact ⟨rfl, rfl, rfl, .inr ⟨rfl, _, rfl⟩⟩
    | leave report => cases hwinds.2.1
    | _ => exact hwinds.elim
  | looks | drains | closes hs =>
    rw [Stage.finds_eq_nil rfl, List.append_nil, List.filterMap_nil, List.append_nil]
    exact hwinds
  | departs hup =>
    obtain ⟨-, rfl, rfl⟩ := hwinds
    rw [hup]
    exact ⟨rfl, rfl, rfl⟩
  | quits hup =>
    obtain ⟨hprevious, rfl, rfl⟩ := hwinds
    rw [hup hprevious]
    exact .inl ⟨rfl, rfl, rfl⟩
  | closed =>
    rw [Stage.finds_eq_nil rfl, List.append_nil, List.filterMap_nil, List.append_nil]
    exact ⟨_, rfl, hwinds⟩
  | _ => exact hwinds.elim

theorem Course.winds (hcourse : h.Course e hs out h') (hn : h.stage n = some stage)
    (hwinds : stage.Winds found results) (hdrop : e ≠ .drop n) :
    ∃ next, h'.stage n = some next ∧
      next.Winds (found ++ Stage.finds h.hungUp (some stage) (some next))
        (results ++ hs.filterMap (·.resultOf n)) := by
  cases hcourse.lot hn hdrop with
  | stays hstage hnone =>
    refine ⟨stage, hstage, ?_⟩
    rw [results_eq_nil hnone, List.append_nil]
    simpa [Stage.finds] using hwinds
  | moves hm => exact ⟨_, put_stage_self .., hm.winds hwinds⟩
  | @pours count id payload rest rest' deadline purpose hstage =>
    subst hstage
    refine ⟨_, put_stage_self .., ?_⟩
    rw [Stage.finds_eq_nil rfl, List.append_nil, List.filterMap_nil, List.append_nil]
    exact hwinds.working (by rw [Work.isExchange_carrying, Work.isExchange_carrying])
  | @refuses id payload rest deadline purpose cause hstage =>
    subst hstage
    refine ⟨_, put_stage_self .., ?_⟩
    rw [Stage.finds_eq_nil rfl, List.append_nil, results_resolved,
      ← Work.isExchange_carrying id (.writing payload rest)]
    exact hwinds.next _

theorem Course.over_stays {outcome : Outcome} (hcourse : h.Course e hs out h')
    (hn : h.stage n = some (.over outcome)) (hdrop : e ≠ .drop n) :
    h'.stage n = some (.over outcome) := by
  cases hcourse.lot hn hdrop with
  | stays hstage hnone => exact hstage
  | moves hm => cases hm
  | pours id hstage => cases hstage
  | refuses id hstage => cases hstage

theorem Course.concludes {outcome : Outcome} (hcourse : h.Course e hs out h')
    (hn : h.stage n = some stage) (hwinds : stage.Winds found results) (hdrop : e ≠ .drop n)
    (hbefore : ∀ outcome, stage ≠ .over outcome) (hover : h'.stage n = some (.over outcome)) :
    e = .step (.call n) ∧ ∃ report, stage = .ending .abandoning report := by
  -- Work that winds the session up is followed by more to do.
  have hnext : ∀ {work deadline purpose result},
      (Stage.working work deadline purpose).Winds found results →
      some (purpose.next h.reads deadline result) ≠ some (.over outcome) := by
    intro work deadline purpose result hw heq
    cases purpose with
    | shutdown => cases heq
    | leave report => cases heq
    | _ => exact hw.elim
  cases hcourse.lot hn hdrop with
  | stays hstage hnone => exact absurd (Option.some.inj (hstage.symm.trans hover)) (hbefore outcome)
  | moves hm =>
    rw [put_stage_self] at hover
    cases hm with
    | closed => exact ⟨rfl, _, rfl⟩
    | ends he => exact absurd hover (hnext hwinds)
    | @expires work deadline opening closing purpose hb hlate =>
      cases purpose with
      | shutdown => cases hover
      | leave report => cases hover
      | _ => exact hwinds.elim
    | works hw => cases hover
    | looks => cases hover
    | drains => cases hover
    | departs hup => cases hover
    | quits hup => cases hover
    | closes hs => cases hover
    | _ => exact hwinds.elim
  | pours id hstage =>
    rw [put_stage_self] at hover
    cases hover
  | refuses id hstage =>
    subst hstage
    rw [put_stage_self] at hover
    exact absurd hover (hnext hwinds)

/-! ## One event of a request on its way -/

/-- A request that waits for the writer, or writes, while the writer is there stays in line, is
written, or fails because its write does. -/
theorem Course.in_line {id : Nat} {sending : Sending} (hcourse : h.Course e hs out h')
    (hn : h.stage n = some (.working (.exchange (.sending id sending)) none .answer))
    (hline : sending.errand.isSome = true) (hwriter : h.writer = true) (hdrop : e ≠ .drop n) :
    (∃ next, h'.stage n = some (.working (.exchange (.sending id next)) none .answer) ∧
      next.errand.isSome = true) ∨
    h'.stage n = some (.working (.exchange (.awaiting id)) none .answer) ∨
    ∃ cause, e = .refuse (.call n) cause ∧
      hs = [.resolved n id (.error (.transport (.io cause)))] := by
  generalize hstage : Stage.working (.exchange (.sending id sending)) none .answer = stage at hn
  cases hcourse.lot hn hdrop with
  | stays hst hnone => exact .inl ⟨sending, hst.trans (congrArg some hstage.symm), hline⟩
  | moves hm =>
    rw [put_stage_self]
    cases hm with
    | works hw =>
      cases hstage
      generalize hwork : Work.exchange (.sending id sending) = work at hw
      cases hw with
      | registers => cases hwork
      | tests hup => cases hwork
      | @joins id' =>
        obtain ⟨rfl, rfl⟩ := Work.carrying_eq_exchange hwork.symm
        cases hline
      | @takes id' =>
        obtain ⟨rfl, rfl⟩ := Work.carrying_eq_exchange hwork.symm
        exact .inl ⟨_, rfl, rfl⟩
      | written =>
        cases hwork
        exact .inr (.inl rfl)
    | ends he =>
      cases hstage
      generalize hwork : Work.exchange (.sending id sending) = work at he
      cases he with
      | hungUp hup => cases hwork
      | gone id' hhead hw => cases hw.symm.trans hwriter
      | replied => cases hwork
      | written => cases hwork
    | _ => cases hstage
  | pours id' hst =>
    obtain ⟨hwork, rfl, rfl⟩ := Stage.working.inj (hstage.trans hst)
    obtain ⟨rfl, rfl⟩ := Work.carrying_eq_exchange hwork.symm
    rw [put_stage_self]
    exact .inl ⟨_, rfl, rfl⟩
  | @refuses id' payload rest deadline purpose cause hst =>
    obtain ⟨hwork, rfl, rfl⟩ := Stage.working.inj (hstage.trans hst)
    obtain ⟨rfl, rfl⟩ := Work.carrying_eq_exchange hwork.symm
    exact .inr (.inr ⟨cause, rfl, rfl⟩)

/-- A request that waits for its reply goes on waiting, or comes to a result by a step of its
call. -/
theorem Course.awaiting {id : Nat} (hcourse : h.Course e hs out h')
    (hn : h.stage n = some (.working (.exchange (.awaiting id)) none .answer))
    (hdrop : e ≠ .drop n) :
    h'.stage n = some (.working (.exchange (.awaiting id)) none .answer) ∨
      e = .step (.call n) ∧ ∃ result, hs = [.resolved n id result] := by
  generalize hstage : Stage.working (.exchange (.awaiting id)) none .answer = stage at hn
  cases hcourse.lot hn hdrop with
  | stays hst hnone => exact .inl hst
  | moves hm =>
    cases hm with
    | works hw =>
      cases hstage
      generalize hwork : Work.exchange (.awaiting id) = work at hw
      cases hw with
      | @joins id' => cases id' <;> cases hwork
      | @takes id' => cases id' <;> cases hwork
      | _ => cases hwork
    | ends he =>
      cases hstage
      generalize hwork : Work.exchange (.awaiting id) = work at he
      cases he with
      | replied =>
        cases hwork
        exact .inr ⟨rfl, _, rfl⟩
      | gone id' hhead hw => cases id' <;> cases hwork
      | _ => cases hwork
    | _ => cases hstage
  | pours id' hst | refuses id' hst => cases id' <;> cases hstage.trans hst

end View

/-! ## Requests that were outstanding

Such a request is pursued from the beginning of the stop to the moment when the stopping call
returns. It is still on its way, or it has come to the result that was due, or its reply is in its
mailbox. -/

/-- Call `m` has a request under number `id` that is on its way: it waits for the writer, it is being
written, or it waits for its reply. -/
def Outstanding (s : Session) (m id : Nat) : Prop :=
  (∃ sending, s.stageOf m = some (.working (.exchange (.sending id sending)) none .answer) ∧
    sending.errand.isSome = true) ∨
  s.stageOf m = some (.working (.exchange (.awaiting id)) none .answer)

/-- The result that is due to the request of call `m` after `events`, given the record: that of the
first response with its number since it was registered, if there was one; otherwise there is none, and
nobody reads any more; or its write has failed. -/
def Due (hs : List Happening) (events : List Event) (reader : ReaderStage) (m id : Nat)
    (result : Except SessionError Json) : Prop :=
  ∃ pre post, hs = pre ++ .registered m id :: post ∧
    ((∃ response, FirstReply id response post ∧ result = (Reply.answered response).result) ∨
      (Unanswered id post ∧ reader = .ended ∧ result = .error .closed) ∨
      ∃ cause, .refuse (.call m) cause ∈ events ∧ result = .error (.transport (.io cause)))

variable {s : Session} {c : Phase} {hs : List Happening} {events : List Event} {e : Event}
  {n m id : Nat} {result : Except SessionError Json}
  {results : List (Except SessionError Json)}

theorem Governed.reader_ended (hg : Governed c s) (hread : s.reader = .ended) (e : Event) :
    (s.apply e).reader = .ended ∧ ∀ id, Unanswered id (s.happenings e) := by
  refine ⟨reader_stays_ended hg.lined hread, fun id response hheard => ?_⟩
  have hreading : s.reader = .reading := ((apply_change s e).shift.reading_of_heard hheard).1
  cases hread.symm.trans hreading

theorem Due.apply (h : Due hs events s.reader m id result) (hg : Governed c s) (e : Event) :
    Due (hs ++ s.happenings e) (events ++ [e]) (s.apply e).reader m id result := by
  obtain ⟨pre, post, rfl, hresult⟩ := h
  refine ⟨pre, post ++ s.happenings e, by simp, ?_⟩
  rcases hresult with ⟨response, hfirst, heq⟩ | ⟨hun, hread, heq⟩ | ⟨cause, hcause, heq⟩
  · exact .inl ⟨response, hfirst.append _, heq⟩
  · obtain ⟨hread', hmore⟩ := hg.reader_ended hread e
    exact .inr (.inl ⟨hun.append (hmore id), hread', heq⟩)
  · exact .inr (.inr ⟨cause, List.mem_append_left _ hcause, heq⟩)

theorem Recorded.due {deadline : Option Nat} {purpose : Purpose} {reply : Reply}
    (hrec : Recorded hs s.registry) (hdes : Deserted hs s)
    (hc : s.At m (.working (.exchange (.awaiting id)) deadline purpose) (some reply))
    (events : List Event) : Due hs events s.reader m id reply.result := by
  have htrack : s.track m = some ⟨id, true, some reply⟩ := track_of_get? hc
  cases reply with
  | answered response =>
    obtain ⟨pre, post, heq, hfirst⟩ := hrec.told m _ htrack
    exact ⟨pre, post, heq, .inl ⟨response, hfirst, rfl⟩⟩
  | abandoned =>
    obtain ⟨pre, post, heq, hun⟩ := hdes.unheard m _ htrack rfl
    exact ⟨pre, post, heq, .inr (.inl ⟨hun, hdes.ended m _ htrack rfl, rfl⟩)⟩

/-- What has become of a request that was outstanding when call `n` began to stop the session. -/
inductive Pursued (early late : List Happening) (events : List Event) (s : Session) (n m id : Nat) :
    Prop where
  | queued {sending : Sending}
      (hm : s.stageOf m = some (.working (.exchange (.sending id sending)) none .answer))
      (hline : sending.errand.isSome = true) (hwriter : s.writer = true)
      (horder : Precedes s.queue (.call m) (.call n))
  | awaiting (hm : s.stageOf m = some (.working (.exchange (.awaiting id)) none .answer))
  | resolved {result : Except SessionError Json} (hr : .resolved m id result ∈ late)
      (hdue : Due (early ++ late) events s.reader m id result)

theorem Lined.mem_of_sending {sending : Sending} {deadline : Option Nat} {purpose : Purpose}
    (hl : Lined s)
    (hm : s.stageOf m = some (.working (.exchange (.sending id sending)) deadline purpose))
    (hline : sending.errand.isSome = true) : .call m ∈ s.queue := by
  refine (hl.queued _).mpr ?_
  rw [errand, hm]
  exact hline

/-- Nobody but the call that stops the session takes the writer away, and that call does so in its
turn. -/
theorem Governed.writer_stays (hg : Governed c s) (hn : s.stageOf n = some stage)
    (hrole : stage.role = .closes) (hhead : s.queue.head? ≠ some (.call n)) (e : Event) :
    (s.apply e).writer = s.writer := by
  rcases (course hg.lined e).writer_eq with heq | ⟨k, stage', hk, hfirst, hclose⟩
  · exact heq
  · have hrole' : stage'.role.isPrincipal = true := by
      rcases hclose with ⟨error, rfl⟩ | ⟨result, rfl⟩
      · rw [Stage.role, hg.ordered.isOpening_of_givingUp hk]
        rfl
      · rfl
    have hprincipal : stage.role.isPrincipal = true := by rw [hrole]; rfl
    obtain rfl := hg.ordered.principal_unique hn hk hprincipal hrole'
    exact absurd hfirst hhead

theorem Pursued.apply {early late : List Happening} (h : Pursued early late events s n m id)
    (hg : Governed c s) (hrec : Recorded (early ++ late) s.registry)
    (hdes : Deserted (early ++ late) s) (hn : s.stageOf n = some stage)
    (hrole : stage.role = .closes) (hdrop : e ≠ .drop m) :
    Pursued early (late ++ s.happenings e) (events ++ [e]) (s.apply e) n m id := by
  have hcourse := course hg.lined e
  cases h with
  | @queued sending hm hline hwriter horder =>
    have hne : Task.call m ≠ .call n := by
      intro heq
      obtain rfl := Task.call.inj heq
      obtain rfl := Option.some.inj (hn.symm.trans hm)
      cases hrole
    have hhead := horder.head_ne hg.lined.distinct hne
    rcases hcourse.in_line hm hline hwriter hdrop with
      ⟨next, hm', hline'⟩ | hm' | ⟨cause, rfl, hhappens⟩
    · have hmem := hg.lined.mem_of_sending hm hline
      have hmem' := (hg.lined.apply e).mem_of_sending hm' hline'
      obtain ⟨t, hqueue⟩ := hcourse.queue
      exact .queued hm' hline' ((hg.writer_stays hn hrole hhead e).trans hwriter)
        (horder.step hqueue hmem hmem')
    · exact .awaiting hm'
    · obtain ⟨mailbox, hc⟩ := exists_at hm
      have htrack : s.track m = some ⟨id, true, mailbox⟩ := track_of_get? hc
      obtain ⟨pre, post, heq, -⟩ := hrec.told m _ htrack
      refine .resolved (List.mem_append_right _ (hhappens ▸ List.mem_singleton.mpr rfl)) ?_
      refine ⟨pre, post ++ s.happenings (.refuse (.call m) cause), ?_, .inr (.inr ⟨cause, ?_, rfl⟩)⟩
      · rw [← List.append_assoc, heq]
        simp
      · exact List.mem_append_right _ (List.mem_singleton.mpr rfl)
  | awaiting hm =>
    rcases hcourse.awaiting hm hdrop with hm' | ⟨rfl, result, hhappens⟩
    · exact .awaiting hm'
    · obtain ⟨mailbox, hc⟩ := exists_at hm
      rw [happenings_exchange hc rfl] at hhappens
      cases mailbox with
      | none => cases hhappens
      | some reply =>
        obtain rfl := (Happening.resolved.inj (List.cons.inj hhappens).1).2.2
        have hdue := (hrec.due hdes hc events).apply hg (.step (.call m))
        rw [List.append_assoc] at hdue
        refine .resolved (List.mem_append_right _ ?_) hdue
        rw [happenings_exchange hc rfl]
        exact List.mem_singleton.mpr rfl
  | resolved hr hdue =>
    refine .resolved (List.mem_append_left _ hr) ?_
    rw [← List.append_assoc]
    exact hdue.apply hg e

/-! ## Runs

Two invariants are carried along the run: `Winding` for the call that stops the session, and
`Pursued` for each request. They meet at the last step, when nobody is left in the table. -/

def findings (s : Session) (n : Nat) : List Event → List Bool
  | [] => []
  | e :: events =>
    Stage.finds s.hungUp (s.stageOf n) ((s.apply e).stageOf n) ++ (s.apply e).findings n events

theorem journal_append (s : Session) (events more : List Event) :
    s.journal (events ++ more) = s.journal events ++ (s.run events).journal more := by
  induction events generalizing s with
  | nil => rfl
  | cons e events ih =>
    have hrest := ih (s.apply e)
    rw [List.cons_append, journal, hrest, journal, List.append_assoc]
    rfl

theorem findings_append (s : Session) (n : Nat) (events more : List Event) :
    s.findings n (events ++ more) = s.findings n events ++ (s.run events).findings n more := by
  induction events generalizing s with
  | nil => rfl
  | cons e events ih =>
    have hrest := ih (s.apply e)
    rw [List.cons_append, findings, hrest, findings, List.append_assoc]
    rfl

theorem throughout_append {P : Session → Event → Prop} {more : List Event} :
    Throughout P s (events ++ more) ↔ Throughout P s events ∧ Throughout P (s.run events) more := by
  induction events generalizing s with
  | nil => exact ⟨fun h => ⟨trivial, h⟩, fun h => h.2⟩
  | cons e events ih =>
    have hrest := ih (s := s.apply e)
    constructor
    · rintro ⟨he, hall⟩
      obtain ⟨h₁, h₂⟩ := hrest.mp hall
      exact ⟨⟨he, h₁⟩, h₂⟩
    · rintro ⟨⟨he, h₁⟩, h₂⟩
      exact ⟨he, hrest.mpr ⟨h₁, h₂⟩⟩

/-- Call `n` is winding the session up, and has been since the record was `early`. -/
structure Winding (early late : List Happening) (found : List Bool) (s : Session) (n : Nat) :
    Prop where
  recorded : Recorded (early ++ late) s.registry
  deserted : Deserted (early ++ late) s
  stage : ∃ stage, s.stageOf n = some stage ∧ stage.Winds found (late.filterMap (·.resultOf n))

section Runs

variable {early late : List Happening} {found : List Bool}

theorem Winding.apply (h : Winding early late found s n) (hg : Governed c s) (hdrop : e ≠ .drop n) :
    Winding early (late ++ s.happenings e)
      (found ++ Stage.finds s.hungUp (s.stageOf n) ((s.apply e).stageOf n)) (s.apply e) n := by
  obtain ⟨stage, hn, hwinds⟩ := h.stage
  obtain ⟨next, hn', hwinds'⟩ := (course hg.lined e).winds hn hwinds hdrop
  have hstage' : (s.apply e).stageOf n = some next := hn'
  refine ⟨?_, ?_, next, hn', ?_⟩
  · rw [← List.append_assoc]
    exact h.recorded.shift (apply_change s e).shift
  · rw [← List.append_assoc]
    exact h.deserted.apply hg h.recorded
  · rw [List.filterMap_append, hn, hstage']
    exact hwinds'

theorem Winding.run (h : Winding early late found s n) (hg : Governed c s)
    (hproper : Throughout Proper s events) (hkeep : .drop n ∉ events) :
    Winding early (late ++ s.journal events) (found ++ s.findings n events) (s.run events) n := by
  induction events generalizing s c late found with
  | nil =>
    rw [journal, findings, List.append_nil, List.append_nil]
    exact h
  | cons e events ih =>
    obtain ⟨d, -, hg'⟩ := hg.apply hproper.1
    obtain ⟨hdrop, hkeep'⟩ := List.ne_and_not_mem_of_not_mem_cons hkeep
    rw [journal, findings, ← List.append_assoc, ← List.append_assoc]
    exact ih (h.apply hg (Ne.symm hdrop)) hg' hproper.2 hkeep'

theorem Winding.pursue {done : List Event} (h : Winding early late found s n) (hg : Governed c s)
    (hproper : Throughout Proper s events) (hkeep : .drop n ∉ events) (hdrop : .drop m ∉ events)
    (hp : (∃ outcome, s.stageOf n = some (.over outcome)) ∨
      Pursued early late done s n m id) :
    (∃ outcome, (s.run events).stageOf n = some (.over outcome)) ∨
      Pursued early (late ++ s.journal events) (done ++ events) (s.run events) n m id := by
  induction events generalizing s c late found done with
  | nil =>
    rw [journal, List.append_nil, List.append_nil]
    exact hp
  | cons e events ih =>
    obtain ⟨d, -, hg'⟩ := hg.apply hproper.1
    obtain ⟨hne, hkeep'⟩ := List.ne_and_not_mem_of_not_mem_cons hkeep
    obtain ⟨hne', hdrop'⟩ := List.ne_and_not_mem_of_not_mem_cons hdrop
    have hstep : (∃ outcome, (s.apply e).stageOf n = some (.over outcome)) ∨
        Pursued early (late ++ s.happenings e) (done ++ [e]) (s.apply e) n m id := by
      obtain ⟨stage, hn, hwinds⟩ := h.stage
      have hcourse := course hg.lined e
      rcases hp with ⟨outcome, hover⟩ | hp
      · exact .inl ⟨outcome, hcourse.over_stays hover (Ne.symm hne)⟩
      · rcases hwinds.role with hrole | ⟨outcome, rfl⟩
        · exact .inr (hp.apply hg h.recorded h.deserted hn hrole (Ne.symm hne'))
        · exact .inl ⟨outcome, hcourse.over_stays hn (Ne.symm hne)⟩
    have hrun := ih (h.apply hg (Ne.symm hne)) hg' hproper.2 hkeep' hdrop' hstep
    rw [journal, ← List.append_assoc, List.append_cons]
    exact hrun

theorem Winding.pursue_to_end {done during : List Event} {last : Event}
    (h : Winding early late found s n) (hg : Governed c s)
    (hproper : Throughout Proper s (during ++ [last])) (hkeep : .drop n ∉ during ++ [last])
    (hdrop : .drop m ∉ during ++ [last])
    (hbefore : ∀ outcome, (s.run during).stageOf n ≠ some (.over outcome))
    (hp : Pursued early late done s n m id) :
    Pursued early (late ++ s.journal during ++ (s.run during).happenings last)
      (done ++ (during ++ [last])) ((s.run during).apply last) n m id := by
  obtain ⟨hduring, -⟩ := throughout_append.mp hproper
  obtain ⟨d, hg'⟩ := hg.run hduring
  have hkeep' : .drop n ∉ during := fun hmem => hkeep (List.mem_append_left _ hmem)
  have hdrop' : .drop m ∉ during := fun hmem => hdrop (List.mem_append_left _ hmem)
  have hlast : last ≠ .drop m := fun heq =>
    hdrop (List.mem_append_right _ (List.mem_singleton.mpr heq.symm))
  have hw := h.run hg hduring hkeep'
  rw [← List.append_assoc done]
  rcases h.pursue hg hduring hkeep' hdrop' (.inr hp) with ⟨outcome, hover⟩ | hp'
  · exact absurd hover (hbefore outcome)
  · obtain ⟨stage, hn, hwinds⟩ := hw.stage
    rcases hwinds.role with hrole | ⟨outcome, rfl⟩
    · exact hp'.apply hg' hw.recorded hw.deserted hn hrole hlast
    · exact absurd hn (hbefore outcome)

end Runs

theorem mem_results : result ∈ hs.filterMap (·.resultOf n) ↔ ∃ id, .resolved n id result ∈ hs := by
  constructor
  · intro h
    obtain ⟨x, hx, heq⟩ := List.mem_filterMap.mp h
    cases x with
    | resolved m id result' =>
      rw [Happening.resultOf] at heq
      split at heq
      · next hm =>
        obtain rfl := Option.some.inj heq
        exact ⟨id, hm ▸ hx⟩
      · cases heq
    | _ => cases heq
  · rintro ⟨id, hr⟩
    exact List.mem_filterMap.mpr ⟨_, hr, if_pos rfl⟩

variable {mailbox : Option Reply} {report : Except SessionError Unit}

theorem moveCall_of_at {next : Stage} (hc : s.At n stage mailbox) :
    s.moveCall n next = { s with calls := s.calls.set n ⟨next, mailbox⟩ } := by
  rw [moveCall, hc]

theorem apply_stop (hc : s.At n (.fresh .stop) mailbox) (hstate : s.state = .running) :
    ∃ log, s.apply (.step (.call n)) =
      { s with
        state := .stopping
        log
        calls := s.calls.set n
          ⟨.draining .running (s.after s.settings.drainWindow) s.now, mailbox⟩ } := by
  have happly : s.apply (.step (.call n)) = (s.setState .stopping).moveCall n
      (.draining .running (s.after s.settings.drainWindow) s.now) := by
    simp [apply, step, callStep, hc, openCall, hstate]
  have hc' : (s.setState .stopping).At n (.fresh .stop) mailbox := hc
  rw [happly, moveCall_of_at hc']
  exact ⟨_, rfl⟩

/-- Stopping a session that has been stopped, or that somebody else is stopping, is nothing but a
remark in the log. -/
theorem apply_stop_again (hc : s.At n (.fresh .stop) mailbox)
    (hstate : s.state = .stopped ∨ s.state = .stopping) :
    ∃ log, s.apply (.step (.call n)) =
      { s with log, calls := s.calls.set n ⟨.over .stopped, mailbox⟩ } := by
  have happly : s.apply (.step (.call n)) = (s.note .debug "stop requested on idle session"
      [("state", .shown s.state.name)]).moveCall n (.over .stopped) := by
    rcases hstate with hstate | hstate <;>
      simp [apply, step, callStep, hc, openCall, hstate, finishCall]
  have hc' : (s.note .debug "stop requested on idle session"
      [("state", .shown s.state.name)]).At n (.fresh .stop) mailbox := hc
  rw [happly, moveCall_of_at hc']
  exact ⟨_, rfl⟩

theorem apply_abandoning (hc : s.At n (.ending .abandoning report) mailbox) :
    (s.apply (.step (.call n))).state = .stopped ∧ (s.apply (.step (.call n))).pending = {} := by
  obtain ⟨log, hstep⟩ := closeStep_abandoning s n
  have happly : s.apply (.step (.call n)) =
      Session.finishStop { s.abandonPending with log } n report := by
    simp [apply, step, callStep, hc, hstep]
  rw [happly]
  unfold finishStop finishCall
  generalize Stage.over _ = stage
  obtain ⟨calls, hmove⟩ := moveCall_eq (note _ ..) n stage
  obtain ⟨calls', habandon⟩ := abandonPending_eq s
  rw [hmove, habandon]
  exact ⟨rfl, rfl⟩

theorem Concludes.fails {found : List Bool} (h : Concludes found results report) :
    (∃ error, Outcome.ofStop report = .failed error) ↔
      found = [false] ∧ ∀ value, .ok value ∉ results := by
  rcases h with ⟨rfl, rfl, rfl⟩ | ⟨rfl, ⟨result, rfl, rfl⟩ | ⟨rfl, millis, rfl⟩⟩
  · simp [Outcome.ofStop]
  · cases result <;> simp [Outcome.ofStop, Except.map]
  · simp [Outcome.ofStop]

theorem Concludes.error {found : List Bool} {error : SessionError}
    (h : Concludes found results report) (herror : Outcome.ofStop report = .failed error) :
    .error error ∈ results ∨ results = [] ∧ ∃ millis, error = .timeout .closing millis := by
  rcases h with ⟨rfl, rfl, rfl⟩ | ⟨rfl, ⟨result, rfl, rfl⟩ | ⟨rfl, millis, rfl⟩⟩
  · cases herror
  · cases result with
    | ok value => cases herror
    | error e =>
      cases herror
      exact .inl (List.mem_singleton.mpr rfl)
  · cases herror
    exact .inr ⟨rfl, millis, rfl⟩

theorem Concludes.found {found : List Bool} (h : Concludes found results report) :
    ∃ hungUp, found = [hungUp] := by
  rcases h with ⟨rfl, -⟩ | ⟨rfl, -⟩
  · exact ⟨true, rfl⟩
  · exact ⟨false, rfl⟩

theorem Governed.run_stopped (hg : Governed .stopped s) (hproper : Throughout Proper s events) :
    Governed .stopped (s.run events) := by
  induction events generalizing s with
  | nil => exact hg
  | cons e events ih =>
    obtain ⟨d, hturn, hg'⟩ := hg.apply hproper.1
    cases hturn
    exact ih hg' hproper.2

/-- What is settled when call `n`, which stops session `s`, returns `outcome` after `events`, given the
record up to `s`. -/
structure Settles (early : List Happening) (s : Session) (n : Nat) (events : List Event)
    (outcome : Outcome) : Prop where
  /-- The session has stopped, the writer is gone, and no request is registered any more. -/
  closed : (s.run events).state = .stopped ∧ (s.run events).writer = false ∧
    (s.run events).pending = {}
  /-- Nobody waits for a reply. -/
  handed : ∀ m t, (s.run events).track m = some t → t.reply ≠ none
  /-- Every request that was outstanding has come to the result that is due to it, or has been handed
  the reply that gives it, unless its caller has lost interest. -/
  requests : ∀ m id, s.Outstanding m id → .drop m ∉ events →
    ∃ result, Due (early ++ s.journal events) events (s.run events).reader m id result ∧
      (.resolved m id result ∈ s.journal events ∨ ∃ reply, result = reply.result ∧
        (s.run events).At m (.working (.exchange (.awaiting id)) none .answer) (some reply))
  /-- The call has looked once, after draining, whether the server has hung up. -/
  found : ∃ hungUp, s.findings n events = [hungUp]
  /-- It fails exactly if the server had not hung up then and its request, which asks the server to
  shut down, has come to no good result. -/
  fails : (∃ error, outcome = .failed error) ↔
    s.findings n events = [false] ∧ ∀ id value, .resolved n id (.ok value) ∉ s.journal events
  /-- The error is that of the request, or says that the request has taken too long. -/
  error : ∀ error, outcome = .failed error →
    (∃ id, .resolved n id (.error error) ∈ s.journal events) ∨
      (∀ id result, .resolved n id result ∉ s.journal events) ∧
        ∃ millis, error = .timeout .closing millis
  /-- A call that does not fail says that the session has stopped. -/
  succeeds : (∀ error, outcome ≠ .failed error) → outcome = .stopped
  /-- From then on the session stays stopped, and whoever stops it again is told so and changes nothing
  else but the log. -/
  later : ∀ more, Throughout Proper (s.run events) more →
    ((s.run events).run more).state = .stopped ∧
      ∀ m mailbox, ((s.run events).run more).At m (.fresh .stop) mailbox →
        ∃ log, ((s.run events).run more).apply (.step (.call m)) =
          { (s.run events).run more with
            log
            calls := ((s.run events).run more).calls.set m ⟨.over .stopped, mailbox⟩ }

section Settling

variable {early late : List Happening} {found : List Bool} {outcome : Outcome}

theorem Governed.winding (hg : Governed .running s) (hrec : Recorded early s.registry)
    (hdes : Deserted early s) (hc : s.At n (.fresh .stop) mailbox) :
    Winding early (s.happenings (.step (.call n))) [] (s.apply (.step (.call n))) n := by
  obtain ⟨log, happly⟩ := apply_stop hc hg.ordered.state
  have hnothing : s.happenings (.step (.call n)) = [] := by simp [happenings, hc]
  have hstage : (s.apply (.step (.call n))).stageOf n =
      some (.draining .running (s.after s.settings.drainWindow) s.now) := by
    rw [happly, stageOf, Table.get?_set, if_pos rfl]
    rfl
  refine ⟨hrec.shift (apply_change s _).shift, hdes.apply hg hrec, _, hstage, rfl, rfl, ?_⟩
  rw [hnothing]
  rfl

theorem Outstanding.pursued (h : s.Outstanding m id) (hg : Governed .running s)
    (hc : s.At n (.fresh .stop) mailbox) :
    Pursued early (s.happenings (.step (.call n))) [.step (.call n)] (s.apply (.step (.call n)))
      n m id := by
  obtain ⟨log, happly⟩ := apply_stop hc hg.ordered.state
  have hn := stageOf_of_get? hc
  have hout : Task.call n ∉ s.queue := by
    intro hmem
    have herrand := (hg.lined.queued _).mp hmem
    rw [errand, hn] at herrand
    cases herrand
  have hstay : ∀ stage, s.stageOf m = some stage → stage ≠ .fresh .stop →
      (s.apply (.step (.call n))).stageOf m = some stage := by
    intro stage hm hne
    have hmn : m ≠ n := by
      rintro rfl
      exact hne (Option.some.inj (hm.symm.trans hn))
    rw [happly, stageOf, Table.get?_set, if_neg hmn]
    exact hm
  have hwriter : (s.apply (.step (.call n))).writer = true := by
    rw [happly]
    exact hg.manned.running rfl
  rcases h with ⟨sending, hm, hline⟩ | hm
  · refine .queued (hstay _ hm fun heq => by cases heq) hline hwriter ?_
    intro hmem
    rw [happly] at hmem
    exact absurd hmem hout
  · exact .awaiting (hstay _ hm fun heq => by cases heq)

theorem Winding.returns (h : Winding early late found s n) (hg : Governed c s)
    (hproper : s.Proper e) (hdrop : e ≠ .drop n)
    (hbefore : ∀ outcome, s.stageOf n ≠ some (.over outcome))
    (hafter : (s.apply e).stageOf n = some (.over outcome)) :
    Governed .stopped (s.apply e) ∧ (s.apply e).pending = {} := by
  obtain ⟨stage, hn, hwinds⟩ := h.stage
  have hnot : ∀ outcome, stage ≠ .over outcome := by
    rintro o rfl
    exact hbefore o hn
  obtain ⟨rfl, report, rfl⟩ := (course hg.lined e).concludes hn hwinds hdrop hnot hafter
  obtain ⟨mailbox, hc⟩ := exists_at hn
  obtain ⟨hstate, hpending⟩ := apply_abandoning hc
  obtain ⟨-, rfl⟩ := Phase.Fits.closes (hg.ordered.fits n _ hn)
  obtain ⟨d, hturn, hg'⟩ := hg.apply hproper
  have hshown : d.state = .stopped := hg'.ordered.state.symm.trans hstate
  cases hturn with
  | stays => cases hshown
  | ends => exact ⟨hg', hpending⟩

theorem Winding.handed (h : Winding early late found s n) (hpending : s.pending = {}) (m : Nat)
    (t : Track) (ht : s.track m = some t) : t.reply ≠ none := by
  intro hnone
  have hwaits : s.pending.get? t.id = some m :=
    (h.recorded.sound.waiting t.id m).mpr ⟨t, ht, rfl, hnone⟩
  rw [hpending] at hwaits
  cases hwaits

/-- A request that was outstanding has come to its result, or has been handed its reply, by the time
the call has returned. -/
theorem Pursued.settled {done : List Event} (h : Pursued early late done s n m id)
    (hw : Winding early late found s n) (hwriter : s.writer = false) (hpending : s.pending = {}) :
    ∃ result, Due (early ++ late) done s.reader m id result ∧
      (.resolved m id result ∈ late ∨ ∃ reply, result = reply.result ∧
        s.At m (.working (.exchange (.awaiting id)) none .answer) (some reply)) := by
  cases h with
  | queued hm hline hthere horder => cases hwriter.symm.trans hthere
  | awaiting hm =>
    obtain ⟨mailbox, hc⟩ := exists_at hm
    cases mailbox with
    | none => exact absurd rfl (hw.handed hpending m ⟨id, true, none⟩ (track_of_get? hc))
    | some reply =>
      exact ⟨reply.result, hw.recorded.due hw.deserted hc done, .inr ⟨reply, rfl, hc⟩⟩
  | resolved hr hdue => exact ⟨_, hdue, .inl hr⟩

theorem Governed.settles {during : List Event} {last : Event} (hg : Governed .running s)
    (hrec : Recorded early s.registry) (hdes : Deserted early s)
    (hproper : Throughout Proper s (.step (.call n) :: (during ++ [last])))
    (hstop : s.stageOf n = some (.fresh .stop)) (hkeep : .drop n ∉ during ++ [last])
    (hbefore : ∀ outcome, (s.run (.step (.call n) :: during)).stageOf n ≠ some (.over outcome))
    (hafter : (s.run (.step (.call n) :: (during ++ [last]))).stageOf n = some (.over outcome)) :
    Settles early s n (.step (.call n) :: (during ++ [last])) outcome := by
  obtain ⟨mailbox, hc⟩ := exists_at hstop
  -- The first step, what follows it, and the last step.
  obtain ⟨hfirst, hrest⟩ := hproper
  obtain ⟨d, -, hg₁⟩ := hg.apply hfirst
  obtain ⟨hduring, hlast, -⟩ := throughout_append.mp hrest
  have hkeep' : .drop n ∉ during := fun hmem => hkeep (List.mem_append_left _ hmem)
  have hdrop : last ≠ .drop n := fun heq =>
    hkeep (List.mem_append_right _ (List.mem_singleton.mpr heq.symm))
  have hw₁ := hg.winding hrec hdes hc
  obtain ⟨d', hg₂⟩ := hg₁.run hduring
  have hw₂ := hw₁.run hg₁ hduring hkeep'
  have hw₃ := hw₂.apply hg₂ hdrop
  -- What this makes of the whole.
  have hrun : s.run (.step (.call n) :: (during ++ [last])) =
      ((s.apply (.step (.call n))).run during).apply last := by
    rw [Session.run, List.foldl_cons, List.foldl_append]
    rfl
  have hjournal : s.journal (.step (.call n) :: (during ++ [last])) =
      s.happenings (.step (.call n)) ++ (s.apply (.step (.call n))).journal during ++
        ((s.apply (.step (.call n))).run during).happenings last := by
    rw [journal, journal_append, journal, journal, List.append_nil, List.append_assoc]
  have hfindings : s.findings n (.step (.call n) :: (during ++ [last])) =
      [] ++ (s.apply (.step (.call n))).findings n during ++
        Stage.finds ((s.apply (.step (.call n))).run during).hungUp
          (((s.apply (.step (.call n))).run during).stageOf n)
          ((((s.apply (.step (.call n))).run during).apply last).stageOf n) := by
    rw [findings, findings_append, hstop, Stage.finds_eq_nil rfl, findings, findings,
      List.append_nil, List.append_assoc]
  rw [hrun] at hafter
  obtain ⟨hg₃, hpending⟩ := hw₂.returns hg₂ hlast hdrop hbefore hafter
  obtain ⟨hwriter, hread⟩ := hg₃.manned.vacant (.inr rfl)
  rw [← hjournal, ← hfindings, ← hrun] at hw₃
  rw [← hrun] at hafter hg₃ hpending hwriter
  obtain ⟨stage, hover, hwinds⟩ := hw₃.stage
  obtain rfl := Option.some.inj (hafter.symm.trans hover)
  obtain ⟨report, rfl, hconcludes⟩ := hwinds
  refine
    { closed := ⟨hg₃.ordered.state, hwriter, hpending⟩
      handed := hw₃.handed hpending
      requests := fun m id hm hdrop' => ?_
      found := hconcludes.found
      fails := ?_
      error := fun error herror => ?_
      succeeds := fun hgood => ?_
      later := fun more hmore => ?_ }
  · have hdrop₁ : .drop m ∉ during ++ [last] := fun hmem => hdrop' (List.mem_cons_of_mem _ hmem)
    have hp₃ := hw₁.pursue_to_end hg₁ hrest hkeep hdrop₁ hbefore (hm.pursued hg hc)
    rw [← hjournal, ← hrun] at hp₃
    exact hp₃.settled hw₃ hwriter hpending
  · rw [hconcludes.fails]
    refine and_congr_right fun _ => ⟨fun hgood id value hr => ?_, fun hgood value hr => ?_⟩
    · exact hgood value (mem_results.mpr ⟨id, hr⟩)
    · obtain ⟨id, hr⟩ := mem_results.mp hr
      exact hgood id value hr
  · rcases hconcludes.error herror with hr | ⟨hnone, hlate⟩
    · exact .inl (mem_results.mp hr)
    · refine .inr ⟨fun id result hr => ?_, hlate⟩
      have hmem := mem_results.mpr ⟨id, hr⟩
      rw [hnone] at hmem
      cases hmem
  · cases report with
    | ok value => rfl
    | error e => exact absurd rfl (hgood e)
  · have hstopped := hg₃.run_stopped hmore
    exact ⟨hstopped.ordered.state, fun m mailbox hc' =>
      apply_stop_again hc' (.inl hstopped.ordered.state)⟩

end Settling

/-- Stopping a session that runs settles everything, whatever calls are under way, in whatever order
tasks take their steps, whatever the server sends and whenever it hangs up, whichever writes fail and
whoever else gives up. -/
theorem stop_settles_everything (settings : SessionSettings) (filter : DocumentFilter)
    (label : String) (processId now : Nat) (before during : List Event) (last : Event) (n : Nat)
    (outcome : Outcome)
    (hproper : Throughout Proper (start settings filter label processId now)
      (before ++ .step (.call n) :: (during ++ [last])))
    (hstate : ((start settings filter label processId now).run before).state = .running)
    (hstop : ((start settings filter label processId now).run before).stageOf n =
      some (.fresh .stop))
    (hkeep : .drop n ∉ during ++ [last])
    (hbefore : ∀ outcome, (((start settings filter label processId now).run before).run
      (.step (.call n) :: during)).stageOf n ≠ some (.over outcome))
    (hafter : (((start settings filter label processId now).run before).run
      (.step (.call n) :: (during ++ [last]))).stageOf n = some (.over outcome)) :
    Settles ((start settings filter label processId now).journal before)
      ((start settings filter label processId now).run before) n
      (.step (.call n) :: (during ++ [last])) outcome := by
  have hstart := governed_start settings filter label processId now
  obtain ⟨hpast, hfirst, hrest⟩ := throughout_append.mp hproper
  have hrec := run_recorded settings filter label processId now before
  have hdes := (deserted_start settings filter label processId now).run hstart
    (recorded_start ..) hpast
  rw [List.nil_append] at hdes
  obtain ⟨c, hg⟩ := hstart.run hpast
  obtain rfl := hg.ordered.running_of_state hstate
  exact hg.settles hrec hdes ⟨hfirst, hrest⟩ hstop hkeep hbefore hafter

end Session

/-! ## A visit and a farewell

A run in which a request is outstanding when the session is stopped. -/

def Stage.isStop : Stage → Bool
  | .fresh .stop => true
  | _ => false

theorem Stage.eq_of_isStop (h : stage.isStop = true) : stage = .fresh .stop := by
  unfold Stage.isStop at h
  split at h
  · rfl
  · cases h

namespace Session

/-- A session begins, a request is made, and somebody wants to stop the session. -/
def visit : List Event :=
  List.replicate 4 (.step (.call 0)) ++ writes 0 ++ hears 0 1 ++ [.step (.call 0)] ++ writes 0 ++
    [.call 1 (.request "textDocument/hover" none)] ++ List.replicate 5 (.step (.call 1)) ++
    writes 1 ++ [.call 2 .stop]

/-- The request is answered while the session is drained, and the server agrees to shut down. -/
def farewell : List Event :=
  hears 1 2 ++ List.replicate 5 (.step (.call 2)) ++ writes 2 ++ hears 2 3 ++
    [.step (.call 2)] ++ writes 2 ++ List.replicate 4 (.step (.call 2)) ++
    [.step .reader, .step (.call 2)]

theorem farewell_proper : Throughout Proper (start {} {} "custom" 0 0)
    (visit ++ .step (.call 2) :: (farewell ++ [.step (.call 2)])) := by
  simp only [visit, farewell, writes, hears, Throughout, Proper, Event.Proper, List.replicate,
    List.cons_append, List.nil_append, true_and, and_true]
  refine ⟨⟨by decide, by simp, by simp⟩, by decide, by simp, fun _ => ?_⟩
  decide +kernel

theorem farewell_settles :
    ((start {} {} "custom" 0 0).run visit).state = .running ∧
      ((start {} {} "custom" 0 0).run visit).Outstanding 1 2 ∧
      ((start {} {} "custom" 0 0).run visit).findings 2
        (.step (.call 2) :: (farewell ++ [.step (.call 2)])) = [false] ∧
      Settles ((start {} {} "custom" 0 0).journal visit) ((start {} {} "custom" 0 0).run visit) 2
        (.step (.call 2) :: (farewell ++ [.step (.call 2)])) .stopped := by
  obtain ⟨hstate, hwaits, hstop, habandons, hover, hfound⟩ :
      ((start {} {} "custom" 0 0).run visit).state = .running ∧
      (((start {} {} "custom" 0 0).run visit).stageOf 1).any (·.awaits 2) = true ∧
      (((start {} {} "custom" 0 0).run visit).stageOf 2).any Stage.isStop = true ∧
      ((((start {} {} "custom" 0 0).run visit).run
        (.step (.call 2) :: farewell)).stageOf 2).any Stage.abandons = true ∧
      ((((start {} {} "custom" 0 0).run visit).run
        (.step (.call 2) :: (farewell ++ [.step (.call 2)]))).stageOf 2).any
          Stage.hasStopped = true ∧
      ((start {} {} "custom" 0 0).run visit).findings 2
        (.step (.call 2) :: (farewell ++ [.step (.call 2)])) = [false] := by
    decide +kernel
  refine ⟨hstate, .inr (stageOf_of_any Stage.eq_of_awaits hwaits), hfound, ?_⟩
  refine stop_settles_everything {} {} "custom" 0 0 visit farewell (.step (.call 2)) 2 .stopped
    farewell_proper hstate (stageOf_of_any Stage.eq_of_isStop hstop) ?_ ?_
    (stageOf_of_any Stage.eq_of_hasStopped hover)
  · simp [farewell, writes, hears]
  · intro outcome hover'
    rw [hover'] at habandons
    cases habandons

end Session

end LanguageClient
