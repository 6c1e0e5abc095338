import LanguageClient.Json.Decode
import LanguageClient.Json.Parser

/-!
# JSON-RPC envelopes

The client writes requests, notifications and error responses, and reads responses, requests of the
server and notifications. Which of the three an incoming payload is, is decided by the members that
are present: with a `method` it is a request if it has an `id` other than `null` and a notification
otherwise, without a `method` it is a response. Only then is it decoded, so a payload is never
retried as another kind.

An absent member and a `null` member are the same for everything optional.
-/

namespace LanguageClient.Rpc

def version : String := "2.0"

def methodNotFound : Int := -32601

structure Request where
  id : Int
  method : String
  params : Option Json
  deriving Repr

structure Notification where
  jsonrpc : String
  method : String
  params : Option Json
  deriving Repr

structure Failure where
  code : Int
  message : String
  data : Option Json
  deriving Repr

structure Response where
  jsonrpc : String
  /-- The identifier of the request, as the other side echoed it. -/
  id : Option Json
  result : Option Json
  error : Option Failure
  deriving Repr

structure ServerRequest where
  id : Json
  method : String
  params : Option Json
  deriving Repr

inductive Message where
  | response (r : Response)
  | serverRequest (r : ServerRequest)
  | notification (n : Notification)
  deriving Repr

inductive MessageError where
  | syntactic (error : Json.ReadError)
  | data (error : Json.DataError)
  deriving DecidableEq, Repr

def MessageError.message : MessageError → String
  | .syntactic e => e.message
  | .data e => e.message

/-! ## Writing -/

def optionalMember (name : String) : Option Json → List (String × Json)
  | none => []
  | some v => [(name, v)]

namespace Request

def members (r : Request) : List (String × Json) :=
  [("jsonrpc", .str version), ("id", Json.ofInt r.id), ("method", .str r.method)] ++
    optionalMember "params" r.params

def chars (r : Request) : List Char := Json.renderRecord r.members

def payload (r : Request) : List UInt8 := Text.Utf8.encode r.chars

end Request

namespace Notification

def make (method : String) (params : Option Json) : Notification :=
  { jsonrpc := version, method, params }

def members (n : Notification) : List (String × Json) :=
  [("jsonrpc", .str n.jsonrpc), ("method", .str n.method)] ++ optionalMember "params" n.params

def chars (n : Notification) : List Char := Json.renderRecord n.members

def payload (n : Notification) : List UInt8 := Text.Utf8.encode n.chars

end Notification

def Failure.members (f : Failure) : List (String × Json) :=
  [("code", Json.ofInt f.code), ("message", .str f.message)] ++ optionalMember "data" f.data

namespace Response

def refusal (id : Json) (code : Int) (message : String) : Response :=
  { jsonrpc := version
    id := some id
    result := none
    error := some { code, message, data := none } }

/-- The members of a response, in the order in which they are written. The identifier is always
written. -/
def members (r : Response) : List (String × Json) :=
  [("jsonrpc", .str r.jsonrpc), ("id", r.id.getD .null)] ++ optionalMember "result" r.result ++
    optionalMember "error" (r.error.map fun f => .obj f.members)

def chars (r : Response) : List Char := Json.renderRecord r.members

def payload (r : Response) : List UInt8 := Text.Utf8.encode r.chars

/-- The number of the request that a response answers, if it echoes a number of the signed 64-bit
range. -/
def requestId (r : Response) : Option Int := r.id.bind Json.toInt64?

end Response

/-! ## Reading -/

def asInt64 : Json → Json.Decoded Int :=
  Json.asIntBetween (-9223372036854775808) 9223372036854775807 "i64"

def Failure.fields : List (Json.Field Failure) := [
  ⟨"code", .required, fun v f => do return { f with code := ← asInt64 v }⟩,
  ⟨"message", .required, fun v f => do return { f with message := ← Json.asString v }⟩,
  ⟨"data", .optional, fun v f => .ok { f with data := Json.asPresent v }⟩]

def Failure.ofJson (v : Json) : Json.Decoded Failure :=
  Json.asRecord "JsonRpcError" Failure.fields ⟨0, "", none⟩ v

def Response.fields : List (Json.Field Response) := [
  ⟨"jsonrpc", .required, fun v r => do return { r with jsonrpc := ← Json.asString v }⟩,
  ⟨"id", .optional, fun v r => .ok { r with id := Json.asPresent v }⟩,
  ⟨"result", .optional, fun v r => .ok { r with result := Json.asPresent v }⟩,
  ⟨"error", .optional, fun v r => do return { r with error := ← Json.asOption Failure.ofJson v }⟩]

def Response.ofJson (v : Json) : Json.Decoded Response :=
  Json.asRecord "JsonRpcResponse" Response.fields ⟨"", none, none, none⟩ v

def ServerRequest.fields : List (Json.Field ServerRequest) := [
  ⟨"id", .required, fun v r => .ok { r with id := v }⟩,
  ⟨"method", .required, fun v r => do return { r with method := ← Json.asString v }⟩,
  ⟨"params", .optional, fun v r => .ok { r with params := Json.asPresent v }⟩]

def ServerRequest.ofJson (v : Json) : Json.Decoded ServerRequest :=
  Json.asRecord "ServerRequest" ServerRequest.fields ⟨.null, "", none⟩ v

def Notification.fields : List (Json.Field Notification) := [
  ⟨"jsonrpc", .required, fun v n => do return { n with jsonrpc := ← Json.asString v }⟩,
  ⟨"method", .required, fun v n => do return { n with method := ← Json.asString v }⟩,
  ⟨"params", .optional, fun v n => .ok { n with params := Json.asPresent v }⟩]

def Notification.ofJson (v : Json) : Json.Decoded Notification :=
  Json.asRecord "JsonRpcNotification" Notification.fields ⟨"", "", none⟩ v

namespace Message

def ofJson (v : Json) : Json.Decoded Message :=
  let hasMethod := (v.get? "method").isSome
  let hasId := (v.get? "id").any fun id => !id.isNull
  if hasMethod then
    if hasId then (ServerRequest.ofJson v).map .serverRequest
    else (Notification.ofJson v).map .notification
  else (Response.ofJson v).map .response

def ofPayload (bytes : List UInt8) : Except MessageError Message :=
  match Json.parse bytes with
  | .error e => .error (.syntactic e)
  | .ok v =>
    match ofJson v with
    | .error e => .error (.data e)
    | .ok m => .ok m

end Message

end LanguageClient.Rpc
