import LanguageClient.Settings.Files
import LanguageClient.Settings.Flags
import LanguageClient.Settings.Variables

/-!
# Settings from all their sources

Four sources say something about the settings: built-in defaults, a configuration file, the
environment and the command line. Each is a *layer*, and for each setting the uppermost layer that
says something about it counts.

The configuration file is the first that can be loaded among a list of candidates. One that the
command line names must be there and must be usable; any other is skipped if it is missing, and if
it is unusable that matters only if no other can be loaded. All problems are reported together.
-/

namespace LanguageClient

inductive MergeFault where
  | value (cause : Json.DataError)
  | file (complaint : String)
  deriving DecidableEq, Repr

def MergeFault.message : MergeFault → String
  | .value cause => "Failed to merge CLI with configuration: " ++ cause.message
  | .file complaint =>
    "Failed to merge CLI with configuration: " ++ complaint ++ " in TOML source string"

inductive LoadFault where
  | commandLine (fault : FlagFault)
  | file (fault : FileFault)
  | merge (fault : MergeFault)
  deriving DecidableEq, Repr

def LoadFault.message : LoadFault → String
  | .commandLine fault => "Failed to parse command-line arguments: " ++ fault.message
  | .file fault => fault.message
  | .merge fault => fault.message

/-- The wording of all of them: one stands for itself, several are numbered. -/
def LoadFault.summary : List LoadFault → String
  | [fault] => fault.message
  | faults =>
    String.intercalate "\n" (faults.mapIdx fun i fault => toString (i + 1) ++ ": " ++ fault.message)

structure Surroundings where
  args : List String
  environment : List (String × String)
  workingDirectory : String := "."
  deriving Repr

/-- What the sources other than the defaults say. -/
structure Layers where
  file : Json := .obj []
  environment : Json := .obj []
  commandLine : Json := .obj []
  deriving Repr

def Layers.document (l : Layers) : Json :=
  l.commandLine.overlay (l.environment.overlay l.file)

def Layers.settings (l : Layers) : Json.Decoded Settings := Settings.ofJson l.document

namespace Settings

def configPathVariable : String := "FIREBALL_CONFIG_PATH"

def sharedFile : String := "fireball/config.toml"

def dotFile : String := ".fireball.toml"

def filesIn (directory : String) : List String :=
  [Path.join directory sharedFile, Path.join directory dotFile]

/-- The configuration files that need not be there, in the order in which they are tried. A variable
that is set to nothing names no file, but it does name a directory: the working directory. -/
def optionalFiles (s : Surroundings) : List String :=
  let get := Variables.get? s.environment
  let named := ((get configPathVariable).filter (!·.isEmpty)).toList
  let own := ((get "XDG_CONFIG_HOME").map filesIn).getD []
  let shared := match get "XDG_CONFIG_DIRS" with
    | none => []
    | some directories => ((directories.splitOn ":").filter (!·.isEmpty)).flatMap filesIn
  let home := match get "HOME" with
    | none => []
    | some directory =>
      filesIn (Path.join directory ".config") ++ [Path.join directory dotFile]
  (named ++ own ++ shared ++ home ++ [Path.join s.workingDirectory dotFile]).eraseDups

structure FileSearch where
  document : Option Files.FileDocument := none
  /-- What was wrong with the file that must be there. -/
  requiredFaults : List FileFault := []
  /-- What was wrong with files that need not be there. -/
  optionalFaults : List FileFault := []
  deriving Repr

def FileSearch.faults (s : FileSearch) : List FileFault :=
  match s.document with
  | some _ => s.requiredFaults
  | none => s.requiredFaults ++ s.optionalFaults

def tryFiles {m : Type → Type} [Monad m] (find : String → m FileEntry) :
    List String → FileSearch → m FileSearch
  | [], s => return s
  | path :: rest, s => do
    match ← Files.load find path with
    | .ok (some document) => return { s with document := some document }
    | .ok none => tryFiles find rest s
    | .error fault => tryFiles find rest { s with optionalFaults := s.optionalFaults ++ [fault] }

def searchFiles {m : Type → Type} [Monad m] (find : String → m FileEntry)
    (required : Option String) (optional : List String) : m FileSearch := do
  match required with
  | none => tryFiles find optional {}
  | some path =>
    match ← Files.load find path with
    | .ok (some document) => return { document := some document }
    | .ok none => tryFiles find optional { requiredFaults := [.unusable path] }
    | .error fault => tryFiles find optional { requiredFaults := [fault] }

/-- Loads the settings from all sources, or says everything that is wrong. -/
def load {m : Type → Type} [Monad m] (find : String → m FileEntry) (s : Surroundings) :
    m (Except (List LoadFault) Settings) := do
  let flags := Flags.parse s.args
  let given := match flags with
    | .ok f => f
    | .error _ => {}
  let search ← searchFiles find given.configPath (optionalFiles s)
  let early := (match flags with
    | .ok _ => []
    | .error fault => [LoadFault.commandLine fault]) ++ search.faults.map LoadFault.file
  let merged : Except MergeFault Settings := match search.document.getD (.document (.obj [])) with
    | .tooNew complaint => .error (.file complaint)
    | .document file =>
      let layers : Layers :=
        { file
          environment := Variables.layer s.environment
          commandLine := given.layer }
      layers.settings.mapError MergeFault.value
  match merged with
  | .error fault => return .error (early ++ [.merge fault])
  | .ok settings => return if early.isEmpty then .ok settings else .error early

end Settings

end LanguageClient
