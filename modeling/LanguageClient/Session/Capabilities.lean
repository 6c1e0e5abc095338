import LanguageClient.Json.Decode

/-!
# What a server says it can do

The client takes the types of the protocol from a library, and with them the reading of what a
server says about itself. Here is the part of it that matters to a handshake: for every capability
that the protocol names, the forms of value that it may have.

A `Reading` says more than whether a value is well formed. It also says what is kept of the value:
members that the types do not name are dropped, and members come in the order of their declaration.
Of several alternatives the first one that fits is taken.

A record can be written as an array of its members, as everywhere. The exceptions are the records
that share members with others (`shared`): they are always objects.
-/

namespace LanguageClient.Handshake

/-- What is kept of a value that has a certain form, or what is wrong with it. -/
abbrev Reading := Json → Json.Decoded Json

/-- The members of a record that have been read, the latest first. -/
abbrev Member := Json.Field (List (String × Json))

namespace Reading

def anything : Reading := .ok

def truth : Reading
  | .bool b => .ok (.bool b)
  | v => .error (.invalidType v.found "a boolean")

def text : Reading := fun v => (Json.asString v).map .str

def integer : Reading := fun v =>
  (Json.asIntBetween (-2147483648) 2147483647 "i32" v).map Json.ofInt

def listOf (item : Reading) : Reading
  | .arr items => (items.mapM item).map .arr
  | v => .error (.invalidType v.found "a sequence")

def oneOf (name : String) (forms : List Reading) : Reading := fun v =>
  match forms.findSome? fun form => (form v).toOption with
  | some kept => .ok kept
  | none => .error (.noAlternative name)

def needs (name : String) (form : Reading) : Member :=
  ⟨name, .required, fun v kept => do return (name, ← form v) :: kept⟩

def may (name : String) (form : Reading) : Member :=
  ⟨name, .nullable, fun v kept =>
    match v with
    | .null => .ok kept
    | v => do return (name, ← form v) :: kept⟩

/-- A record; `start` holds the members that are written even if nobody has given them. -/
def recordFrom (start : List (String × Json)) (name : String) (members : List Member) : Reading :=
  fun v => do
    let kept ← Json.asRecord name members start v
    return .obj (members.filterMap fun m => (kept.lookup m.name).map (m.name, ·))

def record (name : String) (members : List Member) : Reading := recordFrom [] name members

/-- The object form of a record only. -/
def objectOnly (name : String) (form : Reading) : Reading
  | .arr _ => .error (.invalidType .sequence ("struct " ++ name))
  | v => form v

/-- A record that shares members with others. -/
def shared (name : String) (members : List Member) : Reading :=
  objectOnly name (record name members)

end Reading

open Reading

/-! ## Members and forms that several capabilities have in common -/

def flag (name : String) : Member := may name truth

def texts (name : String) : Member := may name (listOf text)

def progress : Member := flag "workDoneProgress"

def selector : Member :=
  may "documentSelector" (listOf (record "DocumentFilter"
    [may "language" text, may "scheme" text, may "pattern" text]))

/-- Options with which a server registers for a feature; the selector is written even if it is
`null`. -/
def registration (name : String) : Reading :=
  recordFrom [("documentSelector", .null)] name [selector, may "id" text]

/-- A feature that a server has, does not have, or has with options. Where the protocol also allows
the options of a registration, nothing is added here: they hold the plain options, which are tried
first, and what goes beyond those is dropped. -/
def feature (name options : String) (members : List Member) : Reading :=
  oneOf name [truth, shared options members]

/-! ## The capabilities with forms of their own -/

def documentSync : Reading :=
  oneOf "TextDocumentSyncCapability" [integer, record "TextDocumentSyncOptions" [
    flag "openClose", may "change" integer, flag "willSave", flag "willSaveWaitUntil",
    may "save" (oneOf "TextDocumentSyncSaveOptions"
      [truth, record "SaveOptions" [flag "includeText"]])]]

def notebookFilter : Reading :=
  oneOf "NotebookDocumentFilter" [
    shared "" [needs "notebookType" text, may "scheme" text, may "pattern" text],
    shared "" [may "notebookType" text, needs "scheme" text, may "pattern" text],
    shared "" [may "notebookType" text, may "scheme" text, needs "pattern" text]]

def notebookSync : Reading :=
  let notebook := oneOf "Notebook" [text, notebookFilter]
  let cells := listOf (record "NotebookCellSelector" [needs "language" text])
  let selectors := needs "notebookSelector" (listOf (oneOf "NotebookSelector" [
    shared "" [needs "notebook" notebook, may "cells" cells],
    shared "" [may "notebook" notebook, needs "cells" cells]]))
  oneOf "OneOf" [
    record "NotebookDocumentSyncOptions" [selectors, flag "save"],
    record "NotebookDocumentSyncRegistrationOptions" [selectors, flag "save", may "id" text]]

def fileOperation (name : String) : Member :=
  let kind : Reading := fun v => (Json.asVariant [("file", "file"), ("folder", "folder")] v).map .str
  let pattern := record "FileOperationPattern" [
    needs "glob" text, may "matches" kind,
    may "options" (record "FileOperationPatternOptions" [flag "ignoreCase"])]
  may name (record "FileOperationRegistrationOptions" [
    needs "filters" (listOf (record "FileOperationFilter"
      [may "scheme" text, needs "pattern" pattern]))])

def workspace : Reading :=
  record "WorkspaceServerCapabilities" [
    may "workspaceFolders" (record "WorkspaceFoldersServerCapabilities" [
      flag "supported", may "changeNotifications" (oneOf "OneOf" [truth, text])]),
    may "fileOperations" (record "WorkspaceFileOperationsServerCapabilities"
      (["didCreate", "willCreate", "didRename", "willRename", "didDelete", "willDelete"].map
        fileOperation))]

def semanticTokens : Reading :=
  oneOf "SemanticTokensServerCapabilities" [shared "SemanticTokensOptions" [
    progress,
    needs "legend" (record "SemanticTokensLegend" [
      needs "tokenTypes" (listOf text), needs "tokenModifiers" (listOf text)]),
    flag "range",
    may "full" (oneOf "SemanticTokensFullOptions" [truth, shared "" [flag "delta"]])]]

/-- Here the options of a registration are tried first. -/
def declaration : Reading :=
  let name := "DeclarationRegistrationOptions"
  oneOf "DeclarationCapability" [truth,
    objectOnly name
      (recordFrom [("documentSelector", .null)] name [progress, selector, may "id" text]),
    shared "DeclarationOptions" [progress]]

def diagnostics : Reading :=
  oneOf "DiagnosticServerCapabilities" [shared "DiagnosticOptions" [
    may "identifier" text, needs "interFileDependencies" truth,
    needs "workspaceDiagnostics" truth, progress]]

/-! ## All capabilities -/

/-- The capabilities that the protocol names, in the order of their declaration. -/
def capabilityMembers : List Member := [
  may "positionEncoding" text,
  may "textDocumentSync" documentSync,
  may "notebookDocumentSync" notebookSync,
  may "selectionRangeProvider"
    (feature "SelectionRangeProviderCapability" "SelectionRangeOptions" [progress]),
  may "hoverProvider" (feature "HoverProviderCapability" "HoverOptions" [progress]),
  may "completionProvider" (shared "CompletionOptions" [
    flag "resolveProvider", texts "triggerCharacters", texts "allCommitCharacters", progress,
    may "completionItem" (record "CompletionOptionsCompletionItem" [flag "labelDetailsSupport"])]),
  may "signatureHelpProvider" (shared "SignatureHelpOptions"
    [texts "triggerCharacters", texts "retriggerCharacters", progress]),
  may "definitionProvider" (feature "OneOf" "DefinitionOptions" [progress]),
  may "typeDefinitionProvider" (oneOf "TypeDefinitionProviderCapability"
    [truth, registration "StaticTextDocumentRegistrationOptions"]),
  may "implementationProvider" (oneOf "ImplementationProviderCapability"
    [truth, registration "StaticTextDocumentRegistrationOptions"]),
  may "referencesProvider" (feature "OneOf" "ReferencesOptions" [progress]),
  may "documentHighlightProvider" (feature "OneOf" "DocumentHighlightOptions" [progress]),
  may "documentSymbolProvider"
    (feature "OneOf" "DocumentSymbolOptions" [may "label" text, progress]),
  may "workspaceSymbolProvider"
    (feature "OneOf" "WorkspaceSymbolOptions" [progress, flag "resolveProvider"]),
  may "codeActionProvider" (feature "CodeActionProviderCapability" "CodeActionOptions"
    [texts "codeActionKinds", progress, flag "resolveProvider"]),
  may "codeLensProvider" (record "CodeLensOptions" [flag "resolveProvider"]),
  may "documentFormattingProvider" (feature "OneOf" "DocumentFormattingOptions" [progress]),
  may "documentRangeFormattingProvider"
    (feature "OneOf" "DocumentRangeFormattingOptions" [progress]),
  may "documentOnTypeFormattingProvider" (record "DocumentOnTypeFormattingOptions"
    [needs "firstTriggerCharacter" text, texts "moreTriggerCharacter"]),
  may "renameProvider" (feature "OneOf" "RenameOptions" [flag "prepareProvider", progress]),
  may "documentLinkProvider" (shared "DocumentLinkOptions" [flag "resolveProvider", progress]),
  may "colorProvider" (oneOf "ColorProviderCapability" [truth, record "ColorProviderOptions" [],
    registration "StaticTextDocumentColorProviderOptions"]),
  may "foldingRangeProvider" (oneOf "FoldingRangeProviderCapability" [truth,
    record "FoldingProviderOptions" [], registration "StaticTextDocumentColorProviderOptions"]),
  may "declarationProvider" declaration,
  may "executeCommandProvider" (shared "ExecuteCommandOptions"
    [needs "commands" (listOf text), progress]),
  may "workspace" workspace,
  may "callHierarchyProvider"
    (feature "CallHierarchyServerCapability" "CallHierarchyOptions" [progress]),
  may "semanticTokensProvider" semanticTokens,
  may "monikerProvider" (feature "OneOf" "MonikerOptions" [progress]),
  may "linkedEditingRangeProvider"
    (feature "LinkedEditingRangeServerCapabilities" "LinkedEditingRangeOptions" [progress]),
  may "inlineValueProvider" (feature "OneOf" "InlineValueOptions" [progress]),
  may "inlayHintProvider" (feature "OneOf" "InlayHintOptions" [progress, flag "resolveProvider"]),
  may "diagnosticProvider" diagnostics,
  may "experimental" anything]

def asCapabilities : Reading := record "ServerCapabilities" capabilityMembers

end LanguageClient.Handshake
