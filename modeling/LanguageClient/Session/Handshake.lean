import LanguageClient.Duration
import LanguageClient.Session.Capabilities
import LanguageClient.Uri.Components

/-!
# What the two sides tell each other first

The client introduces itself with the parameters built here. The server answers with its own
introduction, and the types of the protocol say what counts as one.

How an introduction is read is a setting of the session (`SessionSettings.reads`), because the client
has the types of the protocol from elsewhere: what is true of sessions is true however they are read.
By default they are read as `Session/Capabilities.lean` has it.
-/

namespace LanguageClient

structure WorkspaceFolder where
  uri : Uri
  name : String
  deriving DecidableEq, Repr

namespace Handshake

def clientName : String := "fireball-client"

def clientVersion : String := "0.1.0"

def folderJson (f : WorkspaceFolder) : Json :=
  .obj [("name", .str f.name), ("uri", .str f.uri.text)]

def params (processId : Nat) (folders : List WorkspaceFolder) : Json :=
  let common := [
    ("capabilities", .obj []),
    ("clientInfo", .obj [("name", .str clientName), ("version", .str clientVersion)]),
    ("processId", Json.ofNat processId),
    ("rootUri", .null)]
  match folders with
  | [] => .obj common
  | _ => .obj (common ++ [("workspaceFolders", .arr (folders.map folderJson))])

structure ServerInfo where
  name : String
  version : Option String
  deriving DecidableEq, Repr

/-- What a server says about itself: the capabilities, as far as the types of the protocol keep them,
and who it is. -/
structure Introduction where
  capabilities : Json
  serverInfo : Option ServerInfo
  deriving Repr

/-- A way to read a server's introduction. -/
abbrev Decoder := Json → Json.Decoded Introduction

def serverInfoFields : List (Json.Field ServerInfo) := [
  ⟨"name", .required, fun v s => do return { s with name := ← Json.asString v }⟩,
  ⟨"version", .nullable, fun v s => do
    return { s with version := ← Json.asOption Json.asString v }⟩]

def asServerInfo (v : Json) : Json.Decoded ServerInfo :=
  Json.asRecord "ServerInfo" serverInfoFields ⟨"", none⟩ v

def introductionFields : List (Json.Field Introduction) := [
  ⟨"capabilities", .required, fun v i => do return { i with capabilities := ← asCapabilities v }⟩,
  ⟨"serverInfo", .nullable, fun v i => do
    return { i with serverInfo := ← Json.asOption asServerInfo v }⟩]

def asIntroduction : Decoder :=
  Json.asRecord "InitializeResult" introductionFields ⟨.null, none⟩

def optional (name : String) : Option Json → List (String × Json)
  | none => []
  | some v => [(name, v)]

def Introduction.toJson (i : Introduction) : Json :=
  let info := i.serverInfo.map fun s =>
    Json.obj (("name", .str s.name) :: optional "version" (s.version.map .str))
  .obj (("capabilities", i.capabilities) :: optional "serverInfo" info)

end Handshake

structure SessionSettings where
  handshakeTimeout : Duration := Duration.ofMillis 10000
  /-- The time that outstanding requests are given when the session stops. -/
  drainWindow : Duration := Duration.ofMillis 2000
  shutdownTimeout : Duration := Duration.ofMillis 2000
  folders : List WorkspaceFolder := []
  /-- How the answer to the client's introduction is read. -/
  reads : Handshake.Decoder := Handshake.asIntroduction

def WorkspaceFolder.dump (f : WorkspaceFolder) : String :=
  Text.recordText "WorkspaceFolder" [("uri", f.uri.dump), ("name", Text.quoted f.name)]

def SessionSettings.dump (s : SessionSettings) : String :=
  Text.recordText "SessionSettings" [
    ("handshake_timeout", s.handshakeTimeout.text), ("drain_window", s.drainWindow.text),
    ("shutdown_timeout", s.shutdownTimeout.text),
    ("workspace_folders", Text.listText (s.folders.map WorkspaceFolder.dump))]

end LanguageClient
