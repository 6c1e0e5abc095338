import LanguageClient.Proofs.Settings.Sources

/-!
# Which source of a setting counts

For one setting the sources are asked in turn: the command line, the environment, the configuration
file, the built-in default. `Setting.resolve` says this without documents and layers, and
`load_precedence` says that loading does it for each setting on its own.

There is one exception. A command line that gives all seven settings, each with its default, counts as
a command line that gives none, so that the environment and the file are asked although a flag stands
there (`repeated_defaults_give_way`).
-/

namespace LanguageClient

open Json

def Json.isEmptyRecord : Json → Bool
  | .obj [] => true
  | _ => false

theorem Json.isEmptyRecord_eq_false {v : Json} (h : v ≠ .obj []) : v.isEmptyRecord = false := by
  unfold isEmptyRecord
  split
  · exact absurd rfl h
  · rfl

namespace Setting

def onCommandLine (k : Setting) (args : List String) : Option k.Value :=
  ((Flags.pairs (args.drop 1)).lookup k.flag).bind k.readText

/-- What the environment says. An empty record lies over nothing, and so says nothing. -/
def inEnvironment (k : Setting) (environment : List (String × String)) :
    Option (Decoded k.Value) :=
  ((Variables.about k.key environment).filter (!·.isEmptyRecord)).map k.decode

def inFile (k : Setting) (file : Json) : Option (Decoded k.Value) :=
  (file.get? k.key).map k.decode

def resolve (k : Setting) (given : Option k.Value) (environment : List (String × String))
    (file : Json) : Decoded k.Value :=
  (((given.map .ok).or (k.inEnvironment environment)).or (k.inFile file)).getD
    (.ok (k.get Settings.default))

theorem laid_encode (k : Setting) (v : k.Value) (lower : Option Json) :
    laid (some (k.encode v)) lower = some (k.encode v) := by
  have hnot : ∀ ms, k.encode v ≠ .obj ms := by
    cases k <;> simp [encode, Json.ofNat]
  cases lower with
  | none => rfl
  | some w => rw [laid, overlay_of_not_obj hnot]

/-- Of entries that lie over each other the uppermost one counts, unless it is an empty record. -/
theorem decode_laid {k : Setting} {upper lower : Option Json} {start x : k.Value}
    (htidy : ∀ v ∈ upper, Tidy v)
    (h : ((laid upper lower).map k.decode).getD (.ok start) = .ok x) :
    (((upper.filter (!·.isEmptyRecord)).map k.decode).or (lower.map k.decode)).getD (.ok start) =
      .ok x := by
  cases upper with
  | none => simpa [laid] using h
  | some v =>
    by_cases hv : v = .obj []
    · subst hv
      cases lower with
      | none =>
        obtain ⟨name, hname⟩ := decode_obj h
        cases hname
      | some w => exact decode_of_overlay_empty h
    · have hfilter : (some v).filter (!·.isEmptyRecord) = some v := by
        simp [isEmptyRecord_eq_false hv]
      rw [hfilter]
      cases lower with
      | none => exact h
      | some w => exact decode_of_overlay (htidy v rfl) hv h

theorem resolve_of_layers {flags : Flags} {environment : List (String × String)} {file : Json}
    {settings : Settings} (hfile : IsRecord file)
    (h : Layers.settings ⟨file, Variables.layer environment, flags.layer⟩ = .ok settings)
    (k : Setting) : k.resolve (k.counted flags) environment file = .ok (k.get settings) := by
  have henvironment := Variables.isRecord_layer environment
  have hbelow := henvironment.overlay hfile
  obtain ⟨ms, hms, hsorted⟩ := flags.isRecord_layer.overlay hbelow
  have hentry : ms.lookup k.key = laid ((k.counted flags).map k.encode)
      (laid (Variables.about k.key environment) (file.get? k.key)) := by
    have hget := get?_overlay flags.isRecord_layer hbelow k.key
    rw [get?_overlay henvironment hfile, Variables.get?_layer, Flags.get?_layer, hms] at hget
    exact hget
  rw [Layers.settings, Layers.document, hms] at h
  have hk := ofJson_get hsorted h k
  rw [hentry] at hk
  unfold resolve inEnvironment inFile
  cases hgiven : k.counted flags with
  | some v =>
    rw [hgiven, Option.map_some, laid_encode, Option.map_some, Option.getD_some, decode_encode] at hk
    exact hk
  | none =>
    rw [hgiven, Option.map_none, laid] at hk
    rw [Option.map_none, Option.none_or]
    exact decode_laid (fun v hv => Variables.tidy_about hv) hk

end Setting

namespace Settings

/-- Settings are loaded only from a command line that can be read and a file that can be used. -/
theorem load_eq_ok {find : String → FileEntry} {s : Surroundings} {settings : Settings}
    (h : Id.run (load find s) = .ok settings) :
    ∃ flags file, Flags.parse s.args = .ok flags ∧
      (Id.run (searchFiles find flags.configPath (optionalFiles s))).document.getD
        (.document (.obj [])) = .document file ∧
      Layers.settings ⟨file, Variables.layer s.environment, flags.layer⟩ = .ok settings := by
  unfold load at h
  dsimp only [bind, pure, Id.run] at h ⊢
  cases hparse : Flags.parse s.args with
  | error fault =>
    simp only [hparse] at h
    split at h
    · cases h
    · split at h
      · next hempty => simp at hempty
      · cases h
  | ok flags =>
    simp only [hparse] at h
    cases hfile : (searchFiles (m := Id) find flags.configPath (optionalFiles s)).document.getD
        (.document (.obj [])) with
    | tooNew complaint =>
      simp only [hfile] at h
      cases h
    | document file =>
      simp only [hfile] at h
      refine ⟨flags, file, rfl, hfile, ?_⟩
      cases hsettings : Layers.settings ⟨file, Variables.layer s.environment, flags.layer⟩ with
      | error e =>
        simp only [hsettings, Except.mapError] at h
        cases h
      | ok loaded =>
        simp only [hsettings, Except.mapError] at h
        split at h <;> cases h
        rfl

/-- Settings that are loaded come from the first source that says something about them, each on its
own: a flag, a variable, the file, the default. Only if every flag is there and repeats a default do
the flags not count. -/
theorem load_precedence (find : String → FileEntry) (s : Surroundings) (settings : Settings)
    (h : Id.run (load find s) = .ok settings) :
    ∃ flags file, Flags.parse s.args = .ok flags ∧
      (Id.run (searchFiles find flags.configPath (optionalFiles s))).document.getD
        (.document (.obj [])) = .document file ∧
      ((∃ j : Setting, j.onCommandLine s.args ≠ some (j.get default)) → ∀ k : Setting,
        k.resolve (k.onCommandLine s.args) s.environment file = .ok (k.get settings)) ∧
      ((∀ j : Setting, j.onCommandLine s.args = some (j.get default)) → ∀ k : Setting,
        k.resolve none s.environment file = .ok (k.get settings)) := by
  obtain ⟨flags, file, hparse, hfile, hlayers⟩ := load_eq_ok h
  have hrecord : IsRecord file := by
    cases hdocument : (Id.run (searchFiles find flags.configPath (optionalFiles s))).document with
    | none =>
      rw [hdocument] at hfile
      cases hfile
      exact isRecord_empty
    | some d =>
      have horderly := orderly_searchFiles d hdocument
      rw [hdocument] at hfile
      cases hfile
      exact horderly
  have hgiven : ∀ k : Setting, k.given flags = k.onCommandLine s.args := Flags.given_of_parse hparse
  have hresolve := Setting.resolve_of_layers hrecord hlayers
  refine ⟨flags, file, hparse, hfile, ?_, ?_⟩
  · rintro ⟨j, hj⟩ k
    have hsome : ¬ flags.repeatsDefaults = true := by
      rw [Setting.repeatsDefaults_iff]
      intro hall
      exact hj ((hgiven j).symm.trans (hall j))
    have hk := hresolve k
    rwa [Setting.counted, if_neg hsome, hgiven k] at hk
  · intro hall k
    have hrepeats : flags.repeatsDefaults = true := by
      rw [Setting.repeatsDefaults_iff]
      intro j
      rw [hgiven j, hall j]
    have hk := hresolve k
    rwa [Setting.counted, if_pos hrepeats] at hk

/-- Each of the four sources has its say: the port comes from a flag though a variable and the file
name one as well, the log filter from a variable, the host from the file. -/
theorem load_precedence_of_four_sources :
    let s : Surroundings :=
      { args := ["fireball", "--port=3000"]
        environment := [("FIREBALL_PORT", "99"), ("fireball_log_filter", "debug")] }
    let find : String → FileEntry := fun _ => .file "/w/.fireball.toml" "host = \"there\"\nport = 1\n"
    let settings : Settings := { default with port := 3000, logFilter := "debug", host := "there" }
    Id.run (load find s) = .ok settings ∧
      ∃ file, ∀ k : Setting,
        k.resolve (k.onCommandLine s.args) s.environment file = .ok (k.get settings) := by
  intro s find settings
  have hload : Id.run (load find s) = .ok settings := by decide +kernel +revert
  obtain ⟨flags, file, -, -, hgiven, -⟩ := load_precedence find s settings hload
  have hnone : Setting.mode.onCommandLine s.args = none := rfl
  exact ⟨hload, file, hgiven ⟨.mode, by simp [hnone]⟩⟩

/-- A port on the command line gives way to a variable, because the command line gives all other
settings as well and each the value that it has anyway. -/
theorem repeated_defaults_give_way :
    let s : Surroundings :=
      { args := ["fireball", "--mode", "managed", "--transport", "socket", "--server-command",
          "fireball", "--host", "127.0.0.1", "--port", "2077", "--log-filter", "info",
          "--log-format", "compact"]
        environment := [("FIREBALL_PORT", "99")] }
    Setting.port.resolve (Setting.port.onCommandLine s.args) s.environment (.obj []) =
        .ok (2077 : UInt16) ∧
      Id.run (load (fun _ => .missing) s) = .ok { default with port := 99 } := by
  refine ⟨rfl, ?_⟩
  decide +kernel

end Settings

end LanguageClient
