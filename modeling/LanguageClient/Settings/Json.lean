import LanguageClient.Json.Decode
import LanguageClient.Settings.Basic

/-!
# Settings as JSON

Every field has a default, so any subset of the seven members, or any initial run of the seven
items of the array form, is a settings document.
-/

namespace LanguageClient.Settings

def jsonFields : List (Json.Field Settings) := [
  ⟨"mode", .optional, fun v s => do return { s with mode := ← Json.asVariant LaunchMode.names v }⟩,
  ⟨"transport", .optional, fun v s => do
    return { s with transport := ← Json.asVariant TransportKind.names v }⟩,
  ⟨"server_command", .optional, fun v s => do return { s with serverCommand := ← Json.asString v }⟩,
  ⟨"host", .optional, fun v s => do return { s with host := ← Json.asString v }⟩,
  ⟨"port", .optional, fun v s => do
    return { s with port := UInt16.ofNat (← Json.asNatUpTo Text.maxWord16 "u16" v) }⟩,
  ⟨"log_filter", .optional, fun v s => do return { s with logFilter := ← Json.asString v }⟩,
  ⟨"log_format", .optional, fun v s => do
    return { s with logFormat := ← Json.asVariant LogFormat.names v }⟩]

def ofJson (v : Json) : Json.Decoded Settings := Json.asRecord "Config" jsonFields default v

def members (s : Settings) : List (String × Json) := [
  ("mode", .str s.mode.name),
  ("transport", .str s.transport.name),
  ("server_command", .str s.serverCommand),
  ("host", .str s.host),
  ("port", Json.ofNat s.port.toNat),
  ("log_filter", .str s.logFilter),
  ("log_format", .str s.logFormat.name)]

def jsonText (s : Settings) : String := String.ofList (Json.renderRecord s.members)

end LanguageClient.Settings
