import LanguageClient.Proofs.Rpc.Classification

/-!
# What the client writes is read as what it is

The client writes three kinds of envelopes. Each is the text of an object with its members in an order of
their own, so `ofPayload_eq_ok_iff` says what it is read as, and what is left to see is what the members
say: that a request has an identifier, that a notification has none, that a refusal has no method, and
that everything optional which is written is carried.
-/

namespace LanguageClient.Rpc

open LanguageClient.Json LanguageClient.Text

/-- A value that can stand in an envelope and is carried by it: it is not `null`, and the envelope around
it is a container that the reader counts. -/
structure Enclosed (v : Json) : Prop where
  ne_null : v ≠ .null
  proper : Proper (maxDepth - 1) v

variable {params : Option Json}

theorem carried_of_enclosed (h : ∀ v ∈ params, Enclosed v) : carried params = params := by
  cases params with
  | none => rfl
  | some v => exact carried_of_ne (h v rfl).ne_null

theorem proper_optionalMember {d : Nat} {name : String} (h : ∀ v ∈ params, Proper d v) :
    ∀ m ∈ optionalMember name params, Proper d m.2 := by
  cases params with
  | none => exact List.forall_mem_nil _
  | some v => simpa [optionalMember] using h v rfl

theorem proper_int {d : Nat} {n : Int} (h : IsInt64 n) : Proper d (ofInt n) :=
  .num ⟨h.1, h.2.trans (by decide)⟩

theorem ofPayload_request {id : Int} (hid : IsInt64 id) (method : String)
    (hparams : ∀ v ∈ params, Enclosed v) :
    Message.ofPayload (Request.mk id method params).payload =
      .ok (.serverRequest ⟨ofInt id, method, params⟩) := by
  have hproper : ∀ m ∈ (Request.mk id method params).members, Proper (maxDepth - 1) m.2 := by
    refine List.forall_mem_append.mpr ⟨?_, proper_optionalMember fun v hv => (hparams v hv).proper⟩
    simp only [List.forall_mem_cons]
    exact ⟨.str version, proper_int hid, .str method, List.forall_mem_nil _⟩
  refine (Message.ofPayload_eq_ok_iff (objectText_renderRecord hproper)).mpr ⟨?_, ?_, Json.noConfusion, ?_⟩
  · cases params <;> rfl
  · cases params <;> rfl
  · cases params with
    | none => rfl
    | some v => exact (carried_of_enclosed hparams).symm

theorem ofPayload_notification (method : String) (hparams : ∀ v ∈ params, Enclosed v) :
    Message.ofPayload (Notification.make method params).payload =
      .ok (.notification (Notification.make method params)) := by
  have hproper : ∀ m ∈ (Notification.make method params).members, Proper (maxDepth - 1) m.2 := by
    refine List.forall_mem_append.mpr ⟨?_, proper_optionalMember fun v hv => (hparams v hv).proper⟩
    simp only [List.forall_mem_cons]
    exact ⟨.str version, .str method, List.forall_mem_nil _⟩
  refine (Message.ofPayload_eq_ok_iff (objectText_renderRecord hproper)).mpr ⟨?_, ?_, ?_, ?_⟩
  · cases params <;> rfl
  · cases params <;> rfl
  · cases params <;> rfl
  · cases params with
    | none => rfl
    | some v => exact (carried_of_enclosed hparams).symm

/-- A payload is read as a request of the server only for an identifier that it names, and that an answer
can echo. -/
theorem id_of_serverRequest {payload : List UInt8} {r : ServerRequest}
    (h : Message.ofPayload payload = .ok (.serverRequest r)) :
    ∃ v, parse payload = .ok v ∧ v.get? "id" = some r.id ∧ r.id.isNull = false ∧ Enclosed r.id := by
  rcases Message.objectText_or_list h with ⟨written, hobject⟩ | ⟨items, htext⟩
  · obtain ⟨hmethod, hid, hnull, hparams⟩ := (Message.ofPayload_eq_ok_iff hobject).mp h
    have hget : (ofMembers written).get? "id" = some r.id := (get?_ofMembers written "id").trans hid
    refine ⟨_, parse_eq_ok_iff.mpr hobject.isText, hget, ?_, hnull, ?_⟩
    · cases hr : r.id with
      | null => exact absurd hr hnull
      | _ => rfl
    · cases hobject.isText.proper with
      | obj hvalues _ =>
        obtain ⟨front, back, hms, -⟩ := List.lookup_eq_some_iff.mp hget
        exact hvalues ("id", r.id) (by simp [hms])
  · obtain ⟨r', hr', -⟩ := (Message.ofPayload_list_eq_ok_iff htext).mp h
    cases hr'

/-- A refusal says which request it refuses, whatever the identifier of that request looks like. -/
theorem ofPayload_refusal {id : Json} (hid : Enclosed id) {code : Int} (hcode : IsInt64 code)
    (message : String) :
    Message.ofPayload (Response.refusal id code message).payload =
      .ok (.response (Response.refusal id code message)) := by
  -- The failure is a container inside the envelope.
  have hfailure : Proper (maxDepth - 1) (.obj [("code", ofInt code), ("message", .str message)]) := by
    refine .obj (d := 125) ?_ (List.pairwise_pair.mpr (show "code" < "message" by decide))
    simp only [List.forall_mem_cons]
    exact ⟨proper_int hcode, .str message, List.forall_mem_nil _⟩
  have hproper : ∀ m ∈ (Response.refusal id code message).members, Proper (maxDepth - 1) m.2 := by
    simp only [Response.members, Response.refusal, optionalMember, List.append_nil, List.cons_append,
      List.nil_append, List.forall_mem_cons, Option.map_some, Option.getD_some]
    exact ⟨.str version, hid.proper, hfailure, List.forall_mem_nil _⟩
  refine (Message.ofPayload_eq_ok_iff (objectText_renderRecord hproper)).mpr ⟨rfl, rfl, ?_, rfl, ?_⟩
  · exact (carried_of_ne hid.ne_null).symm
  · exact .failure (.object hcode rfl rfl)

/-- No kind of envelope is read back as another one, and nothing in it is lost. A request of the client
is read as the server would write one, with its number as the identifier. -/
theorem envelopes_come_back {id : Int} (hid : IsInt64 id) (method : String)
    (hparams : ∀ v ∈ params, Enclosed v) {echoed : Json} (hechoed : Enclosed echoed) {code : Int}
    (hcode : IsInt64 code) (message : String) :
    Message.ofPayload (Request.mk id method params).payload =
        .ok (.serverRequest ⟨ofInt id, method, params⟩) ∧
      Message.ofPayload (Notification.make method params).payload =
        .ok (.notification ⟨version, method, params⟩) ∧
      Message.ofPayload (Response.refusal echoed code message).payload =
        .ok (.response ⟨version, some echoed, none, some ⟨code, message, none⟩⟩) :=
  ⟨ofPayload_request hid method hparams, ofPayload_notification method hparams,
    ofPayload_refusal hechoed hcode message⟩

/-- A value with strings that have to be escaped and an empty container in it. -/
def knotty : Json := .obj [("a\"b", .arr [.null, .str "\\\n\x01é😀"]), ("é", .obj [])]

theorem enclosed_knotty : Enclosed knotty where
  ne_null := Json.noConfusion
  proper := by
    refine .obj (d := 125) ?_ (List.pairwise_pair.mpr (show "a\"b" < "é" by decide))
    simp only [List.forall_mem_cons]
    refine ⟨.arr (d := 124) ?_, .obj (d := 124) (List.forall_mem_nil _) .nil, List.forall_mem_nil _⟩
    simp only [List.forall_mem_cons]
    exact ⟨.null, .str _, List.forall_mem_nil _⟩

theorem envelopes_come_back_knotty :
    Message.ofPayload (Request.mk (-1) "\t\"\x7f" (some knotty)).payload =
        .ok (.serverRequest ⟨ofInt (-1), "\t\"\x7f", some knotty⟩) ∧
      Message.ofPayload (Notification.make "\t\"\x7f" (some knotty)).payload =
        .ok (.notification ⟨version, "\t\"\x7f", some knotty⟩) ∧
      Message.ofPayload (Response.refusal knotty (-32601) "no \"such\" thing").payload =
        .ok (.response ⟨version, some knotty, none, some ⟨-32601, "no \"such\" thing", none⟩⟩) := by
  have hsome : ∀ v ∈ some knotty, Enclosed v := by
    rintro v ⟨⟩
    exact enclosed_knotty
  exact envelopes_come_back ⟨by decide, by decide⟩ _ hsome enclosed_knotty ⟨by decide, by decide⟩ _

end LanguageClient.Rpc
