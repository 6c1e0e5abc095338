import LanguageClient.Proofs.Settings.Looks
import LanguageClient.Proofs.Settings.Precedence

/-!
# One text as a flag and as a variable

A text that a flag takes can also be given to the variable of the same setting, but the two are read
differently: a flag is told what it is about, a variable has to be guessed from its looks, and the name
of a selector must then be exact. `Plain` says for which texts this makes no difference.
**`same_from_either_source`** says that for these, and for no others, the settings come out the same.
-/

namespace LanguageClient

open Json

namespace Setting

def flagName : Setting → String
  | mode => "mode"
  | transport => "transport"
  | serverCommand => "server-command"
  | host => "host"
  | port => "port"
  | logFilter => "log-filter"
  | logFormat => "log-format"

def word (k : Setting) (text : String) : String := "--" ++ k.flagName ++ "=" ++ text

def variableName : Setting → String
  | mode => "FIREBALL_MODE"
  | transport => "FIREBALL_TRANSPORT"
  | serverCommand => "FIREBALL_SERVER_COMMAND"
  | host => "FIREBALL_HOST"
  | port => "FIREBALL_PORT"
  | logFilter => "FIREBALL_LOG_FILTER"
  | logFormat => "FIREBALL_LOG_FORMAT"

theorem settingPath_variableName (k : Setting) :
    Variables.settingPath k.variableName = some [k.key] := by
  cases k <;> decide +kernel

/-- The texts that mean the same in a variable as they mean behind a flag. -/
def Plain : Setting → String → Prop
  | mode, text | transport, text | logFormat, text => Text.lowered text = text
  | serverCommand, text | host, text | logFilter, text => ¬ Variables.Typed text.toList
  | port, _ => True

theorem ext_get {s t : Settings} (h : ∀ k : Setting, k.get s = k.get t) : s = t := by
  cases s
  cases t
  rw [Settings.mk.injEq]
  exact ⟨h mode, h transport, h serverCommand, h host, h port, h logFilter, h logFormat⟩

/-! ## A text behind a flag -/

theorem divideAtEquals_append {name value : List Char} (h : '=' ∉ name) :
    Flags.divideAtEquals (name ++ '=' :: value) = (name, some value) := by
  have hname : ∀ c ∈ name, (c != '=') = true := fun c hc => by
    simp only [bne_iff_ne]
    rintro rfl
    exact h hc
  rw [Flags.divideAtEquals, List.span_eq_takeWhile_dropWhile, List.takeWhile_append_of_pos hname,
    List.dropWhile_append_of_pos hname]
  simp

theorem wordOf_word (k : Setting) (text : String) :
    Flags.wordOf (k.word text) = .long k.flagName (some text) := by
  have hlist : (k.word text).toList = '-' :: '-' :: (k.flagName.toList ++ '=' :: text.toList) := by
    simp [word, String.toList_append]
  have hdivide : Flags.divideAtEquals (k.flagName.toList ++ '=' :: text.toList) =
      (k.flagName.toList, some text.toList) := divideAtEquals_append (by cases k <;> decide)
  unfold Flags.wordOf
  rw [hlist]
  split
  · next heq => simp at heq
  · next rest _ heq =>
    obtain rfl : k.flagName.toList ++ '=' :: text.toList = rest := by simpa using heq
    simp [hdivide]
  · next hlong heq =>
    obtain ⟨-, heq⟩ := List.cons.inj heq
    obtain ⟨rfl, -⟩ := List.cons.inj heq
    exact (hlong rfl).elim
  · next hshort => exact absurd rfl (hshort _ _)

theorem parse_word (k : Setting) (program text : String) :
    Flags.parse [program, k.word text] = ({} : Flags).store k.flag text := by
  have hhelp : k.flagName ≠ "help" := by cases k <;> decide
  have hflag : Flag.names.lookup k.flagName = some k.flag := by cases k <;> rfl
  rw [Flags.parse, List.drop_one, List.tail_cons, Flags.read, wordOf_word]
  dsimp only
  rw [if_neg hhelp, hflag]
  dsimp only [Flags.beginFlag, Flags.settle, bind, Except.bind, pure, Except.pure]
  cases ({} : Flags).store k.flag text <;> rfl

theorem configPath_store {f g : Flags} {text : String} {k : Setting}
    (h : f.store k.flag text = .ok g) : g.configPath = f.configPath := by
  cases k <;> (obtain ⟨-, -, rfl⟩ := Flags.once_bind h; rfl)

end Setting

namespace Settings

theorem searchFiles_of_missing {find : String → FileEntry} (hfind : ∀ path, find path = .missing)
    (paths : List String) : Id.run (searchFiles find none paths) = {} := by
  have htry : ∀ s, tryFiles (m := Id) find paths s = s := by
    induction paths with
    | nil => exact fun s => rfl
    | cons path paths ih =>
      intro s
      rw [tryFiles, Files.load]
      dsimp only [bind, pure]
      rw [hfind]
      exact ih s
  exact htry {}

end Settings

namespace Variables

variable {others : List (String × String)}

theorem about_of_unrelated (h : ∀ v ∈ others, settingPath v.1 = none) (key : String) :
    about key others = none := by
  have hnone : others.filterMap (entry key) = [] := by
    rw [List.filterMap_eq_nil_iff]
    intro v hv
    rw [entry, h v hv]
  rw [about, hnone]
  rfl

theorem foldl_put_of_unrelated (h : ∀ v ∈ others, settingPath v.1 = none) (lower : Json) :
    others.foldl put lower = lower := by
  induction others with
  | nil => rfl
  | cons v others ih =>
    obtain ⟨hv, hothers⟩ := List.forall_mem_cons.mp h
    rw [List.foldl_cons, put, hv]
    exact ih hothers

theorem layer_single (h : ∀ v ∈ others, settingPath v.1 = none) {name key : String}
    (hname : settingPath name = some [key]) (text : String) :
    layer (others ++ [(name, text)]) = .obj [(key, valueOf text)] := by
  change (others ++ [(name, text)]).foldl put (.obj []) = _
  rw [List.foldl_append, foldl_put_of_unrelated h, List.foldl_cons, put, hname]
  rfl

end Variables

namespace Setting

variable {find : String → FileEntry} {program directory text : String}
  {others : List (String × String)} {settings : Settings} {k : Setting}

theorem settings_of_flag (hfind : ∀ path, find path = .missing)
    (hothers : ∀ v ∈ others, Variables.settingPath v.1 = none)
    (h : Id.run (Settings.load find ⟨[program, k.word text], others, directory⟩) = .ok settings) :
    ∃ v, k.readText text = some v ∧ settings = k.set v Settings.default := by
  obtain ⟨flags, file, hparse, hfile, hlayers⟩ := Settings.load_eq_ok h
  rw [parse_word] at hparse
  obtain ⟨-, hgiven, hsome⟩ := Flags.given_store_self hparse
  obtain ⟨v, hv⟩ := Option.isSome_iff_exists.mp hsome
  rw [hv] at hgiven
  refine ⟨v, hv, ext_get fun j => ?_⟩
  rw [configPath_store hparse, Settings.searchFiles_of_missing hfind] at hfile
  cases hfile
  have hnone : ∀ j : Setting, j ≠ k → j.given flags = none := fun j hj => by
    rw [Flags.given_store_of_ne (fun hflag => hj ?_) hparse]
    · cases j <;> rfl
    · cases j <;> cases k <;> first | rfl | cases hflag
  have hcounted : ∀ j : Setting, j.counted flags = j.given flags := fun j => by
    refine if_neg fun hall => ?_
    obtain ⟨i, hi⟩ : ∃ i : Setting, i ≠ k := by
      cases k <;> first | exact ⟨.mode, by decide⟩ | exact ⟨.host, by decide⟩
    have hdefault := (repeatsDefaults_iff flags).mp hall i
    rw [hnone i hi] at hdefault
    cases hdefault
  have hj := resolve_of_layers isRecord_empty hlayers j
  rw [hcounted, resolve, inEnvironment, Variables.about_of_unrelated hothers] at hj
  by_cases hjk : j = k
  · subst hjk
    rw [hgiven] at hj
    rw [get_set_self]
    exact (Except.ok.inj hj).symm
  · rw [hnone j hjk] at hj
    rw [get_set_of_ne hjk]
    exact (Except.ok.inj hj).symm

theorem ofJson_single (k : Setting) (v : Json) :
    Settings.ofJson (.obj [(k.key, v)]) =
      (k.decode v).map fun x => k.set x Settings.default := by
  have hmissing : firstMissing Settings.jsonFields [(k.key, v)] = none := rfl
  rw [Settings.ofJson, asRecord, hmissing, storeMembers, find?_jsonFields, find?_key]
  cases hdecode : k.decode v <;> simp [field, hdecode, storeMembers, bind, Except.bind, pure,
    Except.pure, Except.map]

theorem load_of_variable (hfind : ∀ path, find path = .missing)
    (hothers : ∀ v ∈ others, Variables.settingPath v.1 = none) :
    Id.run (Settings.load find
      ⟨[program], others ++ [(k.variableName, text)], directory⟩) =
      ((k.decode (Variables.valueOf text)).map fun v => k.set v Settings.default).mapError
        fun e => [.merge (.value e)] := by
  have hsearch := Settings.searchFiles_of_missing hfind (Settings.optionalFiles
    ⟨[program], others ++ [(k.variableName, text)], directory⟩)
  have hlayers : Layers.settings ⟨.obj [],
      Variables.layer (others ++ [(k.variableName, text)]), ({} : Flags).layer⟩ =
      (k.decode (Variables.valueOf text)).map fun v => k.set v Settings.default := by
    rw [Variables.layer_single hothers k.settingPath_variableName, ← ofJson_single]
    rfl
  have hparse : Flags.parse [program] = .ok {} := rfl
  unfold Settings.load
  dsimp only [bind, pure, Id.run] at hsearch ⊢
  simp only [hparse, hsearch]
  rw [show ({} : Settings.FileSearch).document.getD (.document (.obj [])) = .document (.obj [])
    from rfl]
  dsimp only
  rw [hlayers]
  cases (k.decode (Variables.valueOf text)).map fun v => k.set v Settings.default <;> rfl

/-! ## The two readings of a text -/

theorem asString_eq_ok {v : Json} {s : String} : asString v = .ok s ↔ v = .str s := by
  cases v <;> simp [asString]

/-- Whether the names of a table are in lower case, look like nothing else and stand for one thing
each. -/
def ClearNames {α : Type} (names : List (String × α)) : Prop :=
  ∀ p ∈ names, Text.lower p.1.toList = p.1.toList ∧ Variables.Unmistakable p.1.toList ∧
    names.lookup p.1 = some p.2

instance {α : Type} [DecidableEq α] (names : List (String × α)) : Decidable (ClearNames names) :=
  inferInstanceAs (Decidable (∀ p ∈ names, _ ∧ _ ∧ _))

theorem clearNames : ClearNames LaunchMode.names ∧ ClearNames TransportKind.names ∧
    ClearNames LogFormat.names := by
  decide

theorem asVariant_valueOf {α : Type} {names : List (String × α)} {a : α} (hnames : ClearNames names)
    (hne : text ≠ "") (htrim : Text.trimmed text = text)
    (h : namedIgnoringCase names text = some a) :
    asVariant names (Variables.valueOf text) = .ok a ↔ Text.lowered text = text := by
  obtain ⟨p, hfind, rfl⟩ := Option.map_eq_some_iff.mp h
  obtain ⟨hlower, hclear, hlookup⟩ := hnames p (List.mem_of_find?_eq_some hfind)
  have hcase : Text.lower text.toList = p.1.toList := by
    have hsame := List.find?_some hfind
    simp only [Text.eqIgnoringCase, Text.sameIgnoringCase, beq_iff_eq, hlower] at hsame
    exact hsame.symm
  have hself : Variables.valueOf text = .str text :=
    (Variables.valueOf_eq_str_iff hne htrim).mpr (hcase ▸ hclear).not_typed
  have hlowered : Text.lowered text = p.1 := by rw [Text.lowered, hcase, String.ofList_toList]
  rw [hself, asVariant, variantNamed, hlowered]
  constructor
  · intro hok
    cases hfound : names.lookup text with
    | none =>
      rw [hfound] at hok
      cases hok
    | some b =>
      obtain ⟨front, back, rfl, -⟩ := List.lookup_eq_some_iff.mp hfound
      obtain ⟨hexact, -⟩ := hnames (text, b) (by simp)
      rw [← hlowered, Text.lowered, hexact, String.ofList_toList]
  · rintro rfl
    rw [hlookup]

/-- A text that a flag takes is read the same in a variable exactly if it is plain. -/
theorem decode_valueOf {v : k.Value} (hne : text ≠ "") (htrim : Text.trimmed text = text)
    (h : k.readText text = some v) : k.decode (Variables.valueOf text) = .ok v ↔ k.Plain text := by
  cases k with
  | mode => exact asVariant_valueOf clearNames.1 hne htrim h
  | transport => exact asVariant_valueOf clearNames.2.1 hne htrim h
  | logFormat => exact asVariant_valueOf clearNames.2.2 hne htrim h
  | serverCommand | host | logFilter =>
    obtain rfl := Option.some.inj h
    exact asString_eq_ok.trans (Variables.valueOf_eq_str_iff hne htrim)
  | port =>
    obtain ⟨n, hread, rfl⟩ := Option.map_eq_some_iff.mp h
    obtain ⟨hnumeral, hn⟩ := Text.readNumeral_eq_some_iff.mp hread
    have hvalue : Variables.valueOf text = Json.ofNat n :=
      Variables.valueOf_numeral htrim hnumeral (hn.trans (by decide))
    refine iff_of_true ?_ trivial
    simp only [decode, hvalue, asNatUpTo, asIntBetween, Json.ofNat]
    rw [if_pos (by simp [hn])]
    rfl

/-- **One text, two sources.** Suppose that nothing else says anything about the settings, and that a
text without blanks at its ends is taken behind a flag. Given to the variable of the same setting
instead, it makes the same settings exactly if it is plain: the name of a selector in lower case, a
text that does not look like anything else, or any port. -/
theorem same_from_either_source (k : Setting) (find : String → FileEntry)
    (program directory text : String) (others : List (String × String)) (settings : Settings)
    (hfind : ∀ path, find path = .missing)
    (hothers : ∀ v ∈ others, Variables.settingPath v.1 = none)
    (hne : text ≠ "") (htrim : Text.trimmed text = text)
    (hflag : Id.run (Settings.load find ⟨[program, k.word text], others, directory⟩) =
      .ok settings) :
    Id.run (Settings.load find ⟨[program], others ++ [(k.variableName, text)], directory⟩) =
      .ok settings ↔ k.Plain text := by
  obtain ⟨v, hv, rfl⟩ := settings_of_flag hfind hothers hflag
  rw [load_of_variable hfind hothers, ← decode_valueOf hne htrim hv]
  cases k.decode (Variables.valueOf text) with
  | error e => simp [Except.map, Except.mapError]
  | ok x =>
    simp only [Except.map, Except.mapError, Except.ok.injEq]
    constructor
    · intro h
      rw [← get_set_self k x Settings.default, h, get_set_self]
    · rintro rfl
      rfl

/-- A command that begins with a truth value is none, and the variable may stand among others. -/
theorem same_from_either_source_of_command :
    let others := [("HOME", "/home/user"), ("PATH", "/bin")]
    Id.run (Settings.load (fun _ => .missing)
      ⟨["fireball", "--server-command=true-lsp -v"], others, "."⟩) =
      .ok { Settings.default with serverCommand := "true-lsp -v" } ∧
    Id.run (Settings.load (fun _ => .missing)
      ⟨["fireball"], others ++ [("FIREBALL_SERVER_COMMAND", "true-lsp -v")], "."⟩) =
      .ok { Settings.default with serverCommand := "true-lsp -v" } := by
  intro others
  have hflag : Id.run (Settings.load (fun _ => .missing)
      ⟨["fireball", serverCommand.word "true-lsp -v"], others, "."⟩) =
      .ok { Settings.default with serverCommand := "true-lsp -v" } := by decide +kernel +revert
  have hplain : serverCommand.Plain "true-lsp -v" := by
    rw [Plain, ← Variables.valueOf_eq_str_iff (by decide) (by decide +kernel)]
    rfl
  exact ⟨hflag, (same_from_either_source serverCommand _ "fireball" "." "true-lsp -v" others _
    (fun _ => rfl) (by decide +kernel +revert) (by decide) (by decide +kernel) hflag).mpr hplain⟩

/-- A filter for two parts of a program is a list of directives to a flag, and a list of two texts to a
variable, which does not take one. -/
theorem directives_not_taken_from_variable :
    let filter := "fireball_lsp_client::session=debug,warn"
    Id.run (Settings.load (fun _ => .missing) ⟨["fireball", logFilter.word filter], [], "."⟩) =
      .ok { Settings.default with logFilter := filter } ∧
    Id.run (Settings.load (fun _ => .missing)
      ⟨["fireball"], [(logFilter.variableName, filter)], "."⟩) =
      .error [.merge (.value (.invalidType .sequence "a string"))] := by
  intro filter
  constructor <;> decide +kernel +revert

end Setting

end LanguageClient
