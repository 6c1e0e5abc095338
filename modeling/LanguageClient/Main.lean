import LanguageClient.Client.Program

/-!
# The program

Everything that touches the world: the command line, the environment, files, and the standard error
stream. The program has neither processes nor sockets at its disposal here, so it gets as far as the
first thing that needs one and says that it cannot be had.
-/

namespace LanguageClient.Client

def unsupported : IoError := ⟨.other, some "operation not supported on this platform"⟩

def refusal : Activation.Request → Activation.Answer
  | .probe _ => .probed (.ok false)
  | .launch command => .launched (.error (LaunchError.ofIo command.program unsupported))
  | .connect (.socket host port) _ =>
    .connected (.error (.io (Transport.endpointText host port) unsupported))
  | .connect (.stdio _ _) _ => .connected (.error .stdioUnavailable)
  | .openSession _ => .opened (.error .closed)
  | .stopSession _ => .stopped (.ok ()) .stopped
  | .kill _ => .killed .alreadyExited

def bareWorkshop : Workshop Unit where
  serve _ _ request := (refusal request, [], ())

def variableNames : List String :=
  ["HOME", "XDG_CONFIG_HOME", "XDG_CONFIG_DIRS", Settings.configPathVariable] ++
    (Settings.default.members.map fun m => Variables.stem ++ m.1.toUpper)

def environment : IO (List (String × String)) := do
  let values ← variableNames.mapM fun name => do return (name, ← IO.getEnv name)
  return values.filterMap fun v => v.2.map fun value => (v.1, value)

def readText (path : String) : IO (Option String) :=
  (do return String.fromUTF8? (← IO.FS.readBinFile path)) <|> return none

def findFile (path : String) : IO FileEntry := do
  if path.isEmpty then return .missing
  let found ← IO.FS.realPath path
  let canonical := found.toString
  match ← found.metadata.toBaseIO with
  | .error (.noFileOrDirectory ..) => return .missing
  | .error _ => return .unreachable
  | .ok properties =>
    if properties.type == .dir then return .directory canonical
    match ← readText canonical with
    | some text => return .file canonical text
    | none => return .unreadable canonical

end LanguageClient.Client

def main (args : List String) : IO UInt32 := do
  let surroundings : LanguageClient.Surroundings :=
    { args := LanguageClient.Client.programName :: args
      environment := ← LanguageClient.Client.environment
      workingDirectory := (← IO.currentDir).toString }
  let loaded ← LanguageClient.Settings.load LanguageClient.Client.findFile surroundings
  let run := LanguageClient.Client.run LanguageClient.Client.bareWorkshop () loaded
  for line in run.lines do IO.eprintln line
  return run.exitCode.toUInt32
