import Mathlib.Tactic.MkIffOfInductiveProp
import LanguageClient.Proofs.Json.Records
import LanguageClient.Rpc.Message

/-!
# Which payloads are which messages

What a payload is read as depends on what it says about six members and on nothing else. `Envelope` is
that condition, for each kind of message, as a relation between what is said about each key and the
message; `ofPayload_eq_ok_iff` says that a payload with the text of an object is read as a message
exactly if the relation holds, whatever the order of its members, whatever other members it has, and
with the last of several members of one key.

Everything optional is carried unless it is `null` (`carried`). A failure may be written as an array of
its fields, and so may a whole response: a payload with the text of an array can be a response
(`ofPayload_list_eq_ok_iff`), although its items have no names that would say so.
-/

namespace LanguageClient.Rpc

open LanguageClient.Json LanguageClient.Text

/-! ## What messages say -/

def IsInt64 (n : Int) : Prop := -9223372036854775808 ≤ n ∧ n ≤ 9223372036854775807

/-- The value is a failure: an object with its members, or an array of its fields. -/
inductive IsFailure : Json → Failure → Prop where
  | object {ms : List (String × Json)} {code : Int} {message : String} (hcode : IsInt64 code)
      (hcodeAt : ms.lookup "code" = some (ofInt code))
      (hmessageAt : ms.lookup "message" = some (.str message)) :
      IsFailure (.obj ms) ⟨code, message, carried (ms.lookup "data")⟩
  | array {code : Int} {message : String} {data : List Json} (hcode : IsInt64 code)
      (hdata : data.length ≤ 1) :
      IsFailure (.arr (ofInt code :: .str message :: data)) ⟨code, message, carried data.head?⟩

/-- What a response says about its failure: nothing, or a value that is one. -/
inductive Reports : Option Json → Option Failure → Prop where
  | nothing {member : Option Json} (h : carried member = none) : Reports member none
  | failure {v : Json} {f : Failure} (h : IsFailure v f) : Reports (some v) (some f)

@[mk_iff] structure IsServerRequest (member : String → Option Json) (r : ServerRequest) : Prop where
  method : member "method" = some (.str r.method)
  id : member "id" = some r.id
  id_ne_null : r.id ≠ .null
  params : r.params = carried (member "params")

@[mk_iff] structure IsNotification (member : String → Option Json) (n : Notification) : Prop where
  method : member "method" = some (.str n.method)
  jsonrpc : member "jsonrpc" = some (.str n.jsonrpc)
  id : carried (member "id") = none
  params : n.params = carried (member "params")

@[mk_iff] structure IsResponse (member : String → Option Json) (r : Response) : Prop where
  jsonrpc : member "jsonrpc" = some (.str r.jsonrpc)
  id : r.id = carried (member "id")
  result : r.result = carried (member "result")
  error : Reports (member "error") r.error

/-- What has to be said about each key for a message. -/
def Envelope (member : String → Option Json) : Message → Prop
  | .serverRequest r => IsServerRequest member r
  | .notification n => IsNotification member n
  | .response r => member "method" = none ∧ IsResponse member r

/-- The items are the fields of a response, of which all but the first may be left out. -/
inductive IsFieldList : List Json → Response → Prop where
  | fields {jsonrpc : String} {rest : List Json} {error : Option Failure} (hlength : rest.length ≤ 3)
      (herror : Reports rest[2]? error) :
      IsFieldList (.str jsonrpc :: rest) ⟨jsonrpc, carried rest[0]?, carried rest[1]?, error⟩

/-! ## Fields -/

theorem Failure.fields_eq : Failure.fields = [
    .slot "code" .required asInt64 fun code f => { f with code },
    .slot "message" .required asString fun message f => { f with message },
    .slot "data" .optional (fun v => .ok (asPresent v)) fun data f => { f with data }] := rfl

theorem Response.fields_eq : Response.fields = [
    .slot "jsonrpc" .required asString fun jsonrpc r => { r with jsonrpc },
    .slot "id" .optional (fun v => .ok (asPresent v)) fun id r => { r with id },
    .slot "result" .optional (fun v => .ok (asPresent v)) fun result r => { r with result },
    .slot "error" .optional (asOption Failure.ofJson) fun error r => { r with error }] := rfl

theorem ServerRequest.fields_eq : ServerRequest.fields = [
    .slot "id" .required .ok fun id r => { r with id },
    .slot "method" .required asString fun method r => { r with method },
    .slot "params" .optional (fun v => .ok (asPresent v)) fun params r => { r with params }] := rfl

theorem Notification.fields_eq : Notification.fields = [
    .slot "jsonrpc" .required asString fun jsonrpc n => { n with jsonrpc },
    .slot "method" .required asString fun method n => { n with method },
    .slot "params" .optional (fun v => .ok (asPresent v)) fun params n => { n with params }] := rfl

theorem Failure.independent : Independent Failure.fields where
  names := by simp [Failure.fields]
  commutes := by simp [Failure.fields_eq, Field.commutes_slot]

theorem Response.independent : Independent Response.fields where
  names := by simp [Response.fields]
  commutes := by simp [Response.fields_eq, Field.commutes_slot]

theorem ServerRequest.independent : Independent ServerRequest.fields where
  names := by simp [ServerRequest.fields]
  commutes := by simp [ServerRequest.fields_eq, Field.commutes_slot]

theorem Notification.independent : Independent Notification.fields where
  names := by simp [Notification.fields]
  commutes := by simp [Notification.fields_eq, Field.commutes_slot]

/-! ## Decoding each kind

For each kind one equivalence, between what the decoder returns and what is said about its fields.
-/

variable {v : Json} {ms : List (String × Json)} {f : Failure} {items : List Json} {r : Response}
  {m : Message}

theorem asString_eq_ok_iff {s : String} : asString v = .ok s ↔ v = .str s := by
  cases v <;> simp [asString]

theorem asInt64_eq_ok_iff {n : Int} : asInt64 v = .ok n ↔ v = ofInt n ∧ IsInt64 n := by
  unfold asInt64 asIntBetween
  split
  · next m =>
    split
    · next hrange =>
      have hm : IsInt64 m := by simpa [IsInt64] using hrange
      simp only [Except.ok.injEq, ofInt, Json.num.injEq, Number.int.injEq, iff_self_and]
      rintro rfl
      exact hm
    · next hrange =>
      have hm : ¬ IsInt64 m := by simpa [IsInt64] using hrange
      simp only [reduceCtorEq, ofInt, Json.num.injEq, Number.int.injEq, false_iff, not_and]
      rintro rfl
      exact hm
  · next hother =>
    simp only [reduceCtorEq, false_iff, not_and]
    rintro rfl
    exact absurd rfl (hother n)

variable (member : String → Option Json)

theorem Failure.storeFields_iff (f : Failure) :
    (storeFields Failure.fields member ⟨0, "", none⟩ = some f ∧ member "code" ≠ none ∧
        member "message" ≠ none) ↔
      member "code" = some (ofInt f.code) ∧ IsInt64 f.code ∧
        member "message" = some (.str f.message) ∧ f.data = carried (member "data") := by
  obtain ⟨code, message, data⟩ := f
  rw [Failure.fields_eq]
  cases hcode : member "code" with
  | none => simp
  | some v =>
    cases hmessage : member "message" with
    | none => simp
    | some w =>
      simp [storeFields_slot hcode, storeFields_slot hmessage, storeFields_carried,
        asInt64_eq_ok_iff, asString_eq_ok_iff, and_assoc, @eq_comm _ data]

theorem Failure.ofJson_obj (hsorted : Sorted ms) :
    Failure.ofJson (.obj ms) = .ok f ↔ IsFailure (.obj ms) f := by
  have hneeded : (∀ g ∈ Failure.fields, g.presence = .required → ms.lookup g.name ≠ none) ↔
      ms.lookup "code" ≠ none ∧ ms.lookup "message" ≠ none := by
    simp [Failure.fields]
  rw [Failure.ofJson, asRecord_obj_eq_ok_iff Failure.independent hsorted, hneeded,
    Failure.storeFields_iff]
  constructor
  · obtain ⟨code, message, data⟩ := f
    rintro ⟨hcodeAt, hcode, hmessageAt, hdata⟩
    obtain rfl : data = _ := hdata
    exact .object hcode hcodeAt hmessageAt
  · rintro ⟨hcode, hcodeAt, hmessageAt⟩
    exact ⟨hcodeAt, hcode, hmessageAt, rfl⟩

theorem Failure.storeFields_listed {w : Json} {data : List Json} :
    storeFields Failure.fields (listedMember Failure.fields (v :: w :: data)) ⟨0, "", none⟩ = some f ↔
      v = ofInt f.code ∧ IsInt64 f.code ∧ w = .str f.message ∧ f.data = carried data.head? := by
  have hcode : listedMember Failure.fields (v :: w :: data) "code" = some v :=
    listedMember_name Failure.independent.names _ 0 rfl
  have hmessage : listedMember Failure.fields (v :: w :: data) "message" = some w :=
    listedMember_name Failure.independent.names _ 1 rfl
  have hdata : listedMember Failure.fields (v :: w :: data) "data" = data[0]? :=
    listedMember_name Failure.independent.names _ 2 rfl
  have hiff := Failure.storeFields_iff (listedMember Failure.fields (v :: w :: data)) f
  rw [hcode, hmessage, hdata, ← List.head?_eq_getElem?] at hiff
  simpa using hiff

theorem Failure.ofJson_arr :
    Failure.ofJson (.arr items) = .ok f ↔ IsFailure (.arr items) f := by
  rw [Failure.ofJson, asRecord_arr_eq_ok_iff Failure.independent.names]
  rcases items with - | ⟨v, - | ⟨w, data⟩⟩
  · refine ⟨fun h => ?_, fun h => by cases h⟩
    simp [Failure.fields] at h
  · refine ⟨fun h => ?_, fun h => by cases h⟩
    simp [Failure.fields] at h
  · have hrest : ∀ g ∈ Failure.fields.drop 2, g.presence = .optional := by simp [Failure.fields]
    have hleft : ∀ g ∈ Failure.fields.drop (v :: w :: data).length, g.presence = .optional :=
      fun g hg => hrest g (List.drop_subset_drop_left _ (Nat.le_add_left 2 data.length) hg)
    have hlength : (v :: w :: data).length ≤ Failure.fields.length ↔ data.length ≤ 1 :=
      Nat.add_le_add_iff_right (n := 2)
    rw [Failure.storeFields_listed, hlength]
    constructor
    · obtain ⟨code, message, detail⟩ := f
      rintro ⟨hshort, -, rfl, hcode, rfl, hdata⟩
      obtain rfl : detail = _ := hdata
      exact .array hcode hshort
    · rintro (_ | ⟨hcode, hdata⟩)
      exact ⟨hdata, hleft, rfl, hcode, rfl, rfl⟩

theorem Failure.ofJson_eq_ok_iff (hv : Tidy v) :
    Failure.ofJson v = .ok f ↔ IsFailure v f := by
  cases v with
  | obj ms => exact Failure.ofJson_obj (hv ms rfl)
  | arr items => exact Failure.ofJson_arr
  | _ => exact ⟨fun h => (by cases h), fun h => (by cases h)⟩

theorem asOption_failure_iff (hv : Tidy v) {error : Option Failure} :
    asOption Failure.ofJson v = .ok error ↔ Reports (some v) error := by
  by_cases hnull : v = .null
  · subst hnull
    constructor
    · intro h
      obtain rfl : none = error := Except.ok.inj h
      exact .nothing rfl
    · rintro (_ | hfailure)
      · rfl
      · cases hfailure
  · have hsome : asOption Failure.ofJson v = (Failure.ofJson v).map some := by
      cases v with
      | null => exact absurd rfl hnull
      | _ => rfl
    rw [hsome]
    constructor
    · intro h
      cases hdecoded : Failure.ofJson v with
      | error e =>
        rw [hdecoded] at h
        cases h
      | ok f =>
        rw [hdecoded] at h
        obtain rfl : some f = error := Except.ok.inj h
        exact .failure ((Failure.ofJson_eq_ok_iff hv).mp hdecoded)
    · rintro (hnone | hfailure)
      · rw [carried_of_ne hnull] at hnone
        cases hnone
      · rw [(Failure.ofJson_eq_ok_iff hv).mpr hfailure]
        rfl

theorem Response.storeFields_iff (r : Response) (htidy : ∀ v, member "error" = some v → Tidy v) :
    (storeFields Response.fields member ⟨"", none, none, none⟩ = some r ∧ member "jsonrpc" ≠ none) ↔
      IsResponse member r := by
  obtain ⟨jsonrpc, id, result, error⟩ := r
  rw [isResponse_iff, Response.fields_eq]
  cases hjsonrpc : member "jsonrpc" with
  | none => simp
  | some v =>
    cases herror : member "error" with
    | none =>
      have hreports : Reports none error ↔ error = none := by
        constructor
        · rintro ⟨⟩
          rfl
        · rintro rfl
          exact .nothing rfl
      simp [storeFields_slot hjsonrpc, storeFields_carried,
        storeFields_of_absent (f := .slot "error" _ _ _) herror, asString_eq_ok_iff, hreports,
        @eq_comm _ id, @eq_comm _ result, @eq_comm _ error]
    | some w =>
      simp [storeFields_slot hjsonrpc, storeFields_carried, storeFields_slot herror,
        asString_eq_ok_iff, asOption_failure_iff (htidy w herror), @eq_comm _ id, @eq_comm _ result,
        ← and_assoc, and_comm (a := Reports _ _)]

theorem Response.ofJson_obj (hsorted : Sorted ms)
    (htidy : ∀ v, ms.lookup "error" = some v → Tidy v) :
    Response.ofJson (.obj ms) = .ok r ↔ IsResponse (fun k => ms.lookup k) r := by
  rw [Response.ofJson, asRecord_obj_eq_ok_iff Response.independent hsorted,
    ← Response.storeFields_iff _ r htidy]
  exact and_congr_right' (by simp [Response.fields])

theorem ServerRequest.storeFields_iff (r : ServerRequest) :
    (storeFields ServerRequest.fields member ⟨.null, "", none⟩ = some r ∧ member "id" ≠ none ∧
        member "method" ≠ none) ↔
      member "id" = some r.id ∧ member "method" = some (.str r.method) ∧
        r.params = carried (member "params") := by
  obtain ⟨id, method, params⟩ := r
  rw [ServerRequest.fields_eq]
  cases hid : member "id" with
  | none => simp
  | some v =>
    cases hmethod : member "method" with
    | none => simp
    | some w =>
      simp [storeFields_slot hid, storeFields_slot hmethod, storeFields_carried, asString_eq_ok_iff,
        @eq_comm _ params, and_left_comm]

theorem ServerRequest.ofJson_obj (hsorted : Sorted ms) {r : ServerRequest} :
    ServerRequest.ofJson (.obj ms) = .ok r ↔ ms.lookup "id" = some r.id ∧
      ms.lookup "method" = some (.str r.method) ∧ r.params = carried (ms.lookup "params") := by
  rw [ServerRequest.ofJson, asRecord_obj_eq_ok_iff ServerRequest.independent hsorted,
    ← ServerRequest.storeFields_iff (ms.lookup ·)]
  exact and_congr_right' (by simp [ServerRequest.fields])

theorem Notification.storeFields_iff (n : Notification) :
    (storeFields Notification.fields member ⟨"", "", none⟩ = some n ∧ member "jsonrpc" ≠ none ∧
        member "method" ≠ none) ↔
      member "jsonrpc" = some (.str n.jsonrpc) ∧ member "method" = some (.str n.method) ∧
        n.params = carried (member "params") := by
  obtain ⟨jsonrpc, method, params⟩ := n
  rw [Notification.fields_eq]
  cases hjsonrpc : member "jsonrpc" with
  | none => simp
  | some v =>
    cases hmethod : member "method" with
    | none => simp
    | some w =>
      simp [storeFields_slot hjsonrpc, storeFields_slot hmethod, storeFields_carried,
        asString_eq_ok_iff, @eq_comm _ params]

theorem Notification.ofJson_obj (hsorted : Sorted ms) {n : Notification} :
    Notification.ofJson (.obj ms) = .ok n ↔ ms.lookup "jsonrpc" = some (.str n.jsonrpc) ∧
      ms.lookup "method" = some (.str n.method) ∧ n.params = carried (ms.lookup "params") := by
  rw [Notification.ofJson, asRecord_obj_eq_ok_iff Notification.independent hsorted,
    ← Notification.storeFields_iff (ms.lookup ·)]
  exact and_congr_right' (by simp [Notification.fields])

/-! ## Objects -/

theorem Message.ofJson_eq_ok_iff :
    Message.ofJson v = .ok m ↔ match m with
      | .serverRequest r => v.get? "method" ≠ none ∧ carried (v.get? "id") ≠ none ∧
          ServerRequest.ofJson v = .ok r
      | .notification n => v.get? "method" ≠ none ∧ carried (v.get? "id") = none ∧
          Notification.ofJson v = .ok n
      | .response r => v.get? "method" = none ∧ Response.ofJson v = .ok r := by
  have hid : ((v.get? "id").any fun id => !id.isNull) = (carried (v.get? "id")).isSome := by
    cases v.get? "id" with
    | none => rfl
    | some id => cases id <;> rfl
  rw [Message.ofJson, hid]
  cases v.get? "method" with
  | none => cases Response.ofJson v <;> cases m <;> simp [Except.map]
  | some w =>
    cases carried (v.get? "id") with
    | none => cases Notification.ofJson v <;> cases m <;> simp [Except.map]
    | some id => cases ServerRequest.ofJson v <;> cases m <;> simp [Except.map]

theorem Message.ofJson_obj (hsorted : Sorted ms)
    (htidy : ∀ v, ms.lookup "error" = some v → Tidy v) :
    Message.ofJson (.obj ms) = .ok m ↔ Envelope (fun k => ms.lookup k) m := by
  rw [Message.ofJson_eq_ok_iff]
  cases m with
  | serverRequest r =>
    dsimp only [get?, Envelope]
    rw [ServerRequest.ofJson_obj hsorted]
    constructor
    · rintro ⟨-, hpresent, hid, hmethod, hparams⟩
      refine ⟨hmethod, hid, fun hnull => hpresent ?_, hparams⟩
      rw [hid, hnull]
      rfl
    · rintro ⟨hmethod, hid, hnull, hparams⟩
      refine ⟨by rw [hmethod]; exact Option.some_ne_none _, ?_, hid, hmethod, hparams⟩
      rw [hid, carried_of_ne hnull]
      exact Option.some_ne_none _
  | notification n =>
    dsimp only [get?, Envelope]
    rw [Notification.ofJson_obj hsorted]
    constructor
    · rintro ⟨-, hid, hjsonrpc, hmethod, hparams⟩
      exact ⟨hmethod, hjsonrpc, hid, hparams⟩
    · rintro ⟨hmethod, hjsonrpc, hid, hparams⟩
      exact ⟨by rw [hmethod]; exact Option.some_ne_none _, hid, hjsonrpc, hmethod, hparams⟩
  | response r =>
    dsimp only [get?, Envelope]
    rw [Response.ofJson_obj hsorted htidy]

/-- What is said about a key: the last one of its members. -/
def said (written : List (String × Json)) (k : String) : Option Json := written.reverse.lookup k

variable {payload : List UInt8}

theorem Message.ofPayload_of_isText (h : IsText payload v) :
    Message.ofPayload payload = .ok m ↔ Message.ofJson v = .ok m := by
  rw [Message.ofPayload, parse_eq_ok_iff.mpr h]
  dsimp only
  cases Message.ofJson v <;> simp

theorem Message.ofPayload_refused (h : IsText payload v)
    (hnone : ∀ m, Message.ofPayload payload ≠ .ok m) :
    ∃ e, Message.ofPayload payload = .error (.data e) := by
  rw [Message.ofPayload, parse_eq_ok_iff.mpr h] at hnone ⊢
  dsimp only at hnone ⊢
  cases hread : Message.ofJson v with
  | error e => exact ⟨e, rfl⟩
  | ok m =>
    rw [hread] at hnone
    exact absurd rfl (hnone m)

theorem Message.ofPayload_eq_ok_iff {written : List (String × Json)}
    (h : ObjectText payload written) :
    Message.ofPayload payload = .ok m ↔ Envelope (said written) m := by
  obtain ⟨ms, hms, hsorted⟩ := isRecord_ofMembers written
  -- In the value each key is there once, with the last of its members.
  have hsaid : (fun k => ms.lookup k) = said written := by
    funext k
    have hget := get?_ofMembers written k
    rw [hms] at hget
    exact hget
  have hproper := h.isText.proper
  rw [hms] at hproper
  -- A failure is a record in its own right, and its members are in order as well.
  have htidy : ∀ v, ms.lookup "error" = some v → Tidy v := by
    intro v hv
    cases hproper with
    | obj hvalues _ =>
      obtain ⟨front, back, rfl, -⟩ := List.lookup_eq_some_iff.mp hv
      exact (hvalues ("error", v) (by simp)).tidy
  rw [Message.ofPayload_of_isText h.isText, hms, Message.ofJson_obj hsorted htidy, hsaid]

theorem Response.storeFields_listed {rest : List Json} (htidy : ∀ w ∈ rest, Tidy w) :
    storeFields Response.fields (listedMember Response.fields (v :: rest)) ⟨"", none, none, none⟩ =
        some r ↔
      v = .str r.jsonrpc ∧ r.id = carried rest[0]? ∧ r.result = carried rest[1]? ∧
        Reports rest[2]? r.error := by
  have hjsonrpc : listedMember Response.fields (v :: rest) "jsonrpc" = some v :=
    listedMember_name Response.independent.names _ 0 rfl
  have hid : listedMember Response.fields (v :: rest) "id" = rest[0]? :=
    listedMember_name Response.independent.names _ 1 rfl
  have hresult : listedMember Response.fields (v :: rest) "result" = rest[1]? :=
    listedMember_name Response.independent.names _ 2 rfl
  have herror : listedMember Response.fields (v :: rest) "error" = rest[2]? :=
    listedMember_name Response.independent.names _ 3 rfl
  have hiff := Response.storeFields_iff (listedMember Response.fields (v :: rest)) r
    fun w hw => htidy w (List.mem_of_getElem? (herror.symm.trans hw))
  rw [and_iff_left (by rw [hjsonrpc]; exact Option.some_ne_none v), isResponse_iff, hjsonrpc, hid,
    hresult, herror, Option.some.injEq] at hiff
  exact hiff

theorem Response.ofJson_arr (htidy : ∀ v ∈ items, Tidy v) :
    Response.ofJson (.arr items) = .ok r ↔ IsFieldList items r := by
  rw [Response.ofJson, asRecord_arr_eq_ok_iff Response.independent.names]
  cases items with
  | nil =>
    refine ⟨fun h => ?_, fun h => by cases h⟩
    simp [Response.fields] at h
  | cons v rest =>
    have hothers : ∀ g ∈ Response.fields.drop 1, g.presence = .optional := by simp [Response.fields]
    have hleft : ∀ g ∈ Response.fields.drop (v :: rest).length, g.presence = .optional :=
      fun g hg => hothers g (List.drop_subset_drop_left _ (Nat.le_add_left 1 rest.length) hg)
    have hlength : (v :: rest).length ≤ Response.fields.length ↔ rest.length ≤ 3 :=
      Nat.add_le_add_iff_right
    rw [Response.storeFields_listed (List.forall_mem_cons.mp htidy).2, hlength]
    constructor
    · obtain ⟨jsonrpc, id, result, error⟩ := r
      rintro ⟨hshort, -, rfl, hid, hresult, herror⟩
      obtain rfl : id = _ := hid
      obtain rfl : result = _ := hresult
      exact .fields hshort herror
    · rintro ⟨hshort, herror⟩
      exact ⟨hshort, hleft, rfl, rfl, rfl, herror⟩

/-- The text of an array is read as the response whose fields it lists, if it lists some. -/
theorem Message.ofPayload_list_eq_ok_iff (h : IsText payload (.arr items)) :
    Message.ofPayload payload = .ok m ↔ ∃ r, m = .response r ∧ IsFieldList items r := by
  have htidy : ∀ v ∈ items, Tidy v := by
    intro v hv
    cases h.proper with
    | arr hitems => exact (hitems v hv).tidy
  rw [Message.ofPayload_of_isText h, Message.ofJson_eq_ok_iff]
  -- An array has no member `method`, so it can be nothing but a response.
  cases m with
  | response r => simp [get?, Response.ofJson_arr htidy]
  | serverRequest r => simp [get?]
  | notification n => simp [get?]

/-! ## What is accepted -/

theorem Message.objectText_or_list (h : Message.ofPayload payload = .ok m) :
    (∃ written, ObjectText payload written) ∨ ∃ items, IsText payload (.arr items) := by
  cases hparse : parse payload with
  | error e =>
    rw [Message.ofPayload, hparse] at h
    cases h
  | ok v =>
    have htext := parse_eq_ok_iff.mp hparse
    have hread := (Message.ofPayload_of_isText htext).mp h
    cases v with
    | obj ms => exact .inl (exists_objectText htext)
    | arr items => exact .inr ⟨items, htext⟩
    | _ => cases hread

/-- The payloads that are accepted are texts of objects, and texts of arrays that list the fields of a
response. Everything else is refused. -/
theorem accepted_texts (payload : List UInt8) :
    (∀ m, Message.ofPayload payload = .ok m → (∃ written, ObjectText payload written) ∨
      ∃ items r, IsText payload (.arr items) ∧ IsFieldList items r ∧ m = .response r) ∧
    (∀ items r, IsText payload (.arr items) → IsFieldList items r →
      Message.ofPayload payload = .ok (.response r)) ∧
    ((∀ v, ¬ IsText payload v) → ∃ e, Message.ofPayload payload = .error (.syntactic e)) ∧
    (∀ v, IsText payload v → (∀ ms, v ≠ .obj ms) → (∀ items r, v = .arr items → ¬ IsFieldList items r) →
      ∃ e, Message.ofPayload payload = .error (.data e)) := by
  refine ⟨fun m hm => ?_, fun items r htext hlist => ?_, fun hnone => ?_, fun v htext hobject hlist => ?_⟩
  · rcases Message.objectText_or_list hm with hobject | ⟨items, htext⟩
    · exact .inl hobject
    · obtain ⟨r, hr, hlist⟩ := (Message.ofPayload_list_eq_ok_iff htext).mp hm
      exact .inr ⟨items, r, htext, hlist, hr⟩
  · exact (Message.ofPayload_list_eq_ok_iff htext).mpr ⟨r, rfl, hlist⟩
  · cases hparse : parse payload with
    | error e => exact ⟨e, by rw [Message.ofPayload, hparse]⟩
    | ok v => exact absurd (parse_eq_ok_iff.mp hparse) (hnone v)
  · refine Message.ofPayload_refused htext fun m hm => ?_
    cases v with
    | obj ms => exact hobject ms rfl
    | arr items =>
      obtain ⟨r, -, hr⟩ := (Message.ofPayload_list_eq_ok_iff htext).mp hm
      exact hlist items r rfl hr
    | _ => cases (Message.ofPayload_of_isText htext).mp hm

/-- An array that is accepted: the version and the identifier of a request. -/
def bareFields : List Json := [.str "2.0", ofInt 7]

theorem array_accepted_as_response :
    (∀ written, ¬ ObjectText (Utf8.encode (renderChars (.arr bareFields))) written) ∧
      Message.ofPayload (Utf8.encode (renderChars (.arr bareFields))) =
        .ok (.response ⟨"2.0", some (ofInt 7), none, none⟩) := by
  have hproper : Proper maxDepth (.arr bareFields) := by
    refine .arr (d := 126) ?_
    simp only [bareFields, List.forall_mem_cons]
    exact ⟨.str "2.0", .num ⟨by decide, by decide⟩, List.forall_mem_nil _⟩
  have htext := isText_renderChars hproper
  have hlist : IsFieldList bareFields ⟨"2.0", some (ofInt 7), none, none⟩ :=
    .fields (by decide) (.nothing rfl)
  refine ⟨fun written hobject => ?_, (Message.ofPayload_list_eq_ok_iff htext).mpr ⟨_, rfl, hlist⟩⟩
  cases htext.unique hobject.isText

end LanguageClient.Rpc
