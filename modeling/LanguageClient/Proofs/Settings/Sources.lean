import LanguageClient.Proofs.Settings.Setting
import LanguageClient.Settings.Load

/-!
# What each source says about a setting

The command line, the environment and the configuration file are read into documents that are then
laid over each other. Here each of them is looked at for one setting.

* On a command line stand flags and their texts (`Flags.pairs`). If it can be read at all, each flag
  stands there at most once and means what its text says (`given_of_parse`).
* In the environment several variables can be about one setting, in any order and depth, and
  `Variables.about` says what they come to. Nothing else in the environment matters for that setting
  (`get?_layer`).
* A configuration file is a record with its members in order, however many files it extends
  (`orderly_searchFiles`).
-/

namespace LanguageClient

open Json

/-! ## The command line -/

namespace Flags

/-- The flag that a word names, and the text that it brings along. -/
def named : Word → Option (Flag × Option String)
  | .long name value => (Flag.names.lookup name).map (·, value)
  | .short letter rest => (Flag.letters.lookup letter).map (·, attachedValue rest)
  | .divider | .plain _ => none

/-- The flags on a command line and their texts. A flag that brings none along takes the next word. -/
def pairs : List String → List (Flag × String)
  | [] => []
  | arg :: rest =>
    match named (wordOf arg) with
    | some (flag, some value) => (flag, value) :: pairs rest
    | some (flag, none) =>
      match rest with
      | value :: rest => (flag, value) :: pairs rest
      | [] => []
    | none => pairs rest

/-- The flags that are still to be stored: one that waits, and those on the rest of the line. -/
def owed : Waiting → List String → List (Flag × String)
  | none, args => pairs args
  | some (flag, some value), args => (flag, value) :: pairs args
  | some (flag, none), value :: args => (flag, value) :: pairs args
  | some (_, none), [] => []

def storeAll (f : Flags) (ps : List (Flag × String)) : Except FlagFault Flags :=
  ps.foldlM (fun f p => f.store p.1 p.2) f

variable {arg text : String} {flag : Flag} {f g flags : Flags} {waiting : Waiting}

theorem pairs_attached {value : String} (h : named (wordOf arg) = some (flag, some value))
    (rest : List String) :
    pairs (arg :: rest) = (flag, value) :: pairs rest := by
  rw [pairs, h]

theorem pairs_separate (h : named (wordOf arg) = some (flag, none)) (rest : List String) :
    pairs (arg :: rest) = owed (some (flag, none)) rest := by
  rw [pairs, h]
  cases rest <;> rfl

theorem pairs_of_unnamed (h : named (wordOf arg) = none) (rest : List String) :
    pairs (arg :: rest) = pairs rest := by
  rw [pairs, h]

theorem wordOf_plain (h : wordOf arg = .plain text) : text = arg := by
  unfold wordOf at h
  split at h <;> cases h
  rfl

theorem storeAll_cons (f : Flags) (flag : Flag) (value : String) (ps : List (Flag × String)) :
    f.storeAll ((flag, value) :: ps) = f.store flag value >>= fun g => g.storeAll ps := rfl

theorem storeAll_of_settle (h : f.settle waiting = .ok g) (args : List String) :
    f.storeAll (owed waiting args) = g.storeAll (pairs args) := by
  rcases waiting with _ | ⟨flag, _ | value⟩
  · obtain rfl := Except.ok.inj h
    rfl
  · cases h
  · rw [settle] at h
    rw [owed, storeAll_cons, h]
    rfl

theorem storeAll_of_beginFlag {next : Waiting} {value : Option String}
    (hword : named (wordOf arg) = some (flag, value))
    (h : f.beginFlag waiting flag value = .ok (g, next)) (rest : List String) :
    f.storeAll (owed waiting (arg :: rest)) = g.storeAll (owed next rest) := by
  rw [beginFlag] at h
  obtain ⟨settled, hsettle, h⟩ := Setting.bind_eq_ok h
  rw [storeAll_of_settle hsettle]
  cases value with
  | none =>
    cases h
    rw [pairs_separate hword]
  | some text =>
    obtain ⟨stored, hstore, heq⟩ := Setting.bind_eq_ok h
    cases heq
    rw [pairs_attached hword, storeAll_cons, hstore]
    rfl

theorem read_named {rest : List String} {value : Option String}
    (hnamed : named (wordOf arg) = some (flag, value))
    (h : f.read waiting (arg :: rest) = .ok flags) :
    ∃ g next, f.beginFlag waiting flag value = .ok (g, next) ∧ g.read next rest = .ok flags := by
  unfold Flags.read at h
  cases hword : wordOf arg with
  | long name text =>
    rw [hword] at h hnamed
    obtain ⟨flag', hflag, heq⟩ := Option.map_eq_some_iff.mp hnamed
    cases heq
    dsimp only at h
    split at h
    · cases value <;> cases h
    · rw [hflag] at h
      dsimp only at h
      split at h
      · cases h
      · next g next hbegin => exact ⟨g, next, hbegin, h⟩
  | short letter attached =>
    rw [hword] at h hnamed
    obtain ⟨flag', hflag, heq⟩ := Option.map_eq_some_iff.mp hnamed
    cases heq
    dsimp only at h
    split at h
    · cases h
    · rw [hflag] at h
      dsimp only at h
      split at h
      · cases h
      · next g next hbegin => exact ⟨g, next, hbegin, h⟩
  | divider | plain text =>
    rw [hword] at hnamed
    cases hnamed

theorem read_unnamed {rest : List String} (hnamed : named (wordOf arg) = none)
    (h : f.read waiting (arg :: rest) = .ok flags) :
    (∃ flag, waiting = some (flag, none) ∧ f.read (some (flag, some arg)) rest = .ok flags) ∨
      rest = [] ∧ f.settle waiting = .ok flags := by
  unfold Flags.read at h
  cases hword : wordOf arg with
  | divider =>
    rw [hword] at h
    cases rest with
    | nil => exact .inr ⟨rfl, h⟩
    | cons arg' rest => cases h
  | long name text =>
    rw [hword] at h hnamed
    have hflag := Option.map_eq_none_iff.mp hnamed
    dsimp only at h
    split at h
    · cases text <;> cases h
    · rw [hflag] at h
      cases h
  | short letter attached =>
    rw [hword] at h hnamed
    have hflag := Option.map_eq_none_iff.mp hnamed
    dsimp only at h
    split at h
    · cases h
    · rw [hflag] at h
      cases h
  | plain text =>
    obtain rfl := wordOf_plain hword
    rw [hword] at h
    rcases waiting with _ | ⟨flag, _ | value⟩
    · cases h
    · exact .inl ⟨flag, rfl, h⟩
    · cases h

/-- Reading a command line is storing the flags that stand on it. -/
theorem storeAll_of_read {args : List String} (h : f.read waiting args = .ok flags) :
    f.storeAll (owed waiting args) = .ok flags := by
  induction args generalizing f waiting with
  | nil =>
    unfold Flags.read at h
    rw [storeAll_of_settle h]
    rfl
  | cons arg rest ih =>
    cases hnamed : named (wordOf arg) with
    | some p =>
      obtain ⟨flag, value⟩ := p
      obtain ⟨g, next, hbegin, hrest⟩ := read_named hnamed h
      rw [storeAll_of_beginFlag hnamed hbegin, ih hrest]
    | none =>
      rcases read_unnamed hnamed h with ⟨flag, rfl, hrest⟩ | ⟨rfl, hsettle⟩
      · exact ih hrest
      · rw [storeAll_of_settle hsettle, pairs_of_unnamed hnamed]
        rfl

theorem once_bind {α : Type} {old value : Option α} {fault : FlagFault} {put : Option α → Flags}
    (h : (once old value fault >>= fun r => pure (put r)) = .ok g) :
    old = none ∧ value.isSome = true ∧ g = put value := by
  cases old with
  | some v => cases h
  | none =>
    cases value with
    | none => cases h
    | some v =>
      cases h
      exact ⟨rfl, rfl, rfl⟩

theorem given_store_self {k : Setting} (h : f.store k.flag text = .ok g) :
    k.given f = none ∧ k.given g = k.readText text ∧ (k.readText text).isSome = true := by
  cases k <;> (obtain ⟨hold, hsome, rfl⟩ := once_bind h; exact ⟨hold, rfl, hsome⟩)

theorem given_store_of_ne {k : Setting} (hne : k.flag ≠ flag) (h : f.store flag text = .ok g) :
    k.given g = k.given f := by
  cases flag <;> obtain ⟨-, -, rfl⟩ := once_bind h <;> cases k <;>
    first | rfl | exact absurd rfl hne

theorem given_of_storeAll {ps : List (Flag × String)} (h : f.storeAll ps = .ok flags)
    (k : Setting) :
    k.given flags = (k.given f).or ((ps.lookup k.flag).bind k.readText) := by
  induction ps generalizing f with
  | nil =>
    obtain rfl := Except.ok.inj h
    simp
  | cons p ps ih =>
    obtain ⟨flag, text⟩ := p
    rw [storeAll_cons] at h
    obtain ⟨g, hstore, h⟩ := Setting.bind_eq_ok h
    rw [ih h, List.lookup_cons]
    by_cases hflag : k.flag = flag
    · subst hflag
      obtain ⟨hold, hnew, hsome⟩ := given_store_self hstore
      obtain ⟨v, hv⟩ := Option.isSome_iff_exists.mp hsome
      simp [hold, hnew, hv]
    · have hbeq : (k.flag == flag) = false := by simpa using hflag
      rw [given_store_of_ne hflag hstore, hbeq]

theorem given_of_parse {args : List String} (h : parse args = .ok flags) (k : Setting) :
    k.given flags = ((pairs (args.drop 1)).lookup k.flag).bind k.readText := by
  have hnone : k.given {} = none := by cases k <;> rfl
  rw [given_of_storeAll (storeAll_of_read h) k, hnone, Option.none_or, owed]

theorem lookup_entry {α : Type} (key : String) (encode : α → Json) (o : Option α) (k : String) :
    ((o.map fun v => (key, encode v)).toList.reverse).lookup k =
      if k = key then o.map encode else none := by
  cases o with
  | none => simp
  | some v => simp [lookup_member]

theorem get?_layer (f : Flags) (k : Setting) :
    f.layer.get? k.key = (k.counted f).map k.encode := by
  rw [layer, Setting.counted]
  split
  · rfl
  · rw [get?_ofMembers, members]
    simp only [List.reverse_append, List.lookup_append, lookup_entry]
    cases k <;> simp [Setting.key, Setting.given] <;> rfl

theorem isRecord_layer (f : Flags) : IsRecord f.layer := by
  rw [layer]
  split
  · exact isRecord_empty
  · exact isRecord_ofMembers _

end Flags

/-! ## The environment

A path may be set as a whole and again in its parts, so what comes of it depends on the order of the
variables. -/

namespace Variables

/-- What a variable is about: the value that it stands for, at the end of the way that leads on from
the setting. -/
def entry (key : String) (binding : String × String) : Option Json :=
  match settingPath binding.1 with
  | some (k :: path) => if k = key then some (nested path (valueOf binding.2)) else none
  | _ => none

/-- What the environment says about a setting: later variables lie over earlier ones. -/
def about (key : String) (environment : List (String × String)) : Option Json :=
  (environment.filterMap (entry key)).foldl (fun lower v => laid (some v) lower) none

theorem settingPath_ne_nil {name : String} {path : List String} (h : settingPath name = some path) :
    path ≠ [] := by
  rw [settingPath, Option.bind_eq_some_iff] at h
  obtain ⟨key, -, hpath⟩ := h
  dsimp only at hpath
  split at hpath
  · cases hpath
  · cases hpath
    simp

theorem isRecord_single (k : String) (v : Json) : IsRecord (.obj [(k, v)]) :=
  ⟨[(k, v)], rfl, List.pairwise_singleton ..⟩

def put (lower : Json) (binding : String × String) : Json :=
  match settingPath binding.1 with
  | some path => (nested path (valueOf binding.2)).overlay lower
  | none => lower

/-- A variable changes what is said about the setting that it is about, and nothing else. -/
theorem put_spec {lower : Json} (h : IsRecord lower) (binding : String × String) (key : String) :
    IsRecord (put lower binding) ∧
      (put lower binding).get? key = laid (entry key binding) (lower.get? key) := by
  unfold put entry
  cases hpath : settingPath binding.1 with
  | none => exact ⟨h, rfl⟩
  | some path =>
    obtain ⟨k, path, rfl⟩ := List.exists_cons_of_ne_nil (settingPath_ne_nil hpath)
    have hsingle := isRecord_single k (nested path (valueOf binding.2))
    refine ⟨hsingle.overlay h, ?_⟩
    have hget := get?_overlay hsingle h key
    rw [show (Json.obj [(k, _)]).get? key = _ from lookup_member ..] at hget
    refine hget.trans ?_
    by_cases hk : k = key
    · simp [hk]
    · simp [hk, Ne.symm hk]

theorem foldl_put {lower : Json} (h : IsRecord lower) (environment : List (String × String))
    (key : String) :
    IsRecord (environment.foldl put lower) ∧
      (environment.foldl put lower).get? key =
        (environment.filterMap (entry key)).foldl (fun lower v => laid (some v) lower)
          (lower.get? key) := by
  induction environment generalizing lower with
  | nil => exact ⟨h, rfl⟩
  | cons binding environment ih =>
    obtain ⟨hrecord, hget⟩ := put_spec h binding key
    obtain ⟨hall, hrest⟩ := ih hrecord
    refine ⟨hall, ?_⟩
    rw [List.foldl_cons, hrest, hget, List.filterMap_cons]
    cases entry key binding <;> rfl

theorem isRecord_layer (environment : List (String × String)) : IsRecord (layer environment) :=
  (foldl_put isRecord_empty environment "").1

theorem get?_layer (environment : List (String × String)) (key : String) :
    (layer environment).get? key = about key environment :=
  (foldl_put isRecord_empty environment key).2

/-! Records in the environment have their members in order. -/

variable {v : Json} {cs : List Char}

theorem tidy_of_not_obj (h : ∀ ms, v ≠ .obj ms) : Tidy v := fun ms hms => absurd hms (h ms)

/-- What is read as a number is one, or nothing if it is too large. -/
theorem isNumber_of_plain (cs : List Char) (h : readDecimal cs = some v ∨ readWhole cs = some v) :
    v = .null ∨ ∃ x, v = .num x := by
  rcases h with h | h
  · unfold readDecimal at h
    dsimp only at h
    split at h
    · split at h
      · cases h
      · obtain ⟨e, -, rfl⟩ := Option.map_eq_some_iff.mp h
        split <;> simp
    · cases h
  · unfold readWhole at h
    split at h
    · cases h
      exact .inr ⟨_, rfl⟩
    · split at h
      · obtain ⟨n, -, hn⟩ := Option.bind_eq_some_iff.mp h
        split at hn
        · cases hn
          exact .inr ⟨_, rfl⟩
        · cases hn
      · cases h

theorem plainValue_cases (cs : List Char) :
    plainValue cs = .str (String.ofList cs) ∧
        (if cs.contains '.' then readDecimal cs else none).or (readWhole cs) = none ∨
      (plainValue cs = .null ∨ ∃ x, plainValue cs = .num x) ∧
        ((if cs.contains '.' then readDecimal cs else none).or (readWhole cs)).isSome = true := by
  unfold plainValue
  dsimp only
  split
  · next v hv =>
    refine .inr ⟨isNumber_of_plain cs ?_, by rw [hv]; rfl⟩
    rcases Option.or_eq_some_iff.mp hv with hdecimal | ⟨-, hwhole⟩
    · split at hdecimal
      · exact .inl hdecimal
      · cases hdecimal
    · exact .inr hwhole
  · next hv => exact .inl ⟨rfl, hv⟩

theorem tidy_plainValue (cs : List Char) : Tidy (plainValue cs) := by
  rcases plainValue_cases cs with ⟨h, -⟩ | ⟨h | ⟨x, h⟩, -⟩ <;>
    exact tidy_of_not_obj (by simp [h])

theorem tidy_readValue {fuel : Nat} {rest : List Char} (h : readValue fuel cs = some (v, rest)) :
    Tidy v := by
  cases fuel with
  | zero => cases h
  | succ fuel =>
    rw [readValue, Option.map_eq_some_iff] at h
    obtain ⟨⟨w, more⟩, hread, heq⟩ := h
    obtain rfl : w = v := congrArg Prod.fst heq
    split at hread
    · obtain ⟨found, -, hfound⟩ := Option.map_eq_some_iff.mp hread
      cases hfound
      exact tidy_of_not_obj (by simp)
    · cases hread
      exact tidy_of_not_obj (by simp)
    · cases hread
    · obtain ⟨found, -, hfound⟩ := Option.map_eq_some_iff.mp hread
      cases hfound
      exact tidy_of_not_obj (by simp)
    · obtain ⟨found, -, hfound⟩ := Option.map_eq_some_iff.mp hread
      cases hfound
      exact (isRecord_ofMembers _).tidy
    · split at hread
      · cases hread
        exact tidy_of_not_obj (by simp)
      · cases hread
        exact tidy_plainValue _

theorem tidy_valueOf (text : String) : Tidy (valueOf text) := by
  unfold valueOf structuredValue
  dsimp only
  split
  · exact tidy_of_not_obj (by simp)
  · split
    · next hread => exact tidy_readValue hread
    · exact tidy_of_not_obj (by simp)

theorem tidy_entry {key : String} {binding : String × String} (h : entry key binding = some v) :
    Tidy v := by
  unfold entry at h
  split at h
  · next k path _ =>
    split at h
    · cases h
      cases path with
      | nil => exact tidy_valueOf _
      | cons k path => exact (isRecord_single k _).tidy
    · cases h
  · cases h

theorem tidy_about {key : String} {environment : List (String × String)}
    (h : about key environment = some v) : Tidy v := by
  unfold about at h
  refine List.foldlRecOn (motive := fun lower : Option Json => ∀ v ∈ lower, Tidy v) _ _ ?_ ?_ v h
  · rintro v ⟨⟩
  · intro lower hlower w hw v hv
    obtain ⟨binding, -, hentry⟩ := List.mem_filterMap.mp hw
    cases lower with
    | none =>
      cases hv
      exact tidy_entry hentry
    | some l =>
      cases hv
      exact (tidy_entry hentry).overlay (hlower l rfl)

end Variables

/-! ## Configuration files -/

namespace Files

/-- The document of a file is a record with its members in order. -/
def FileDocument.Orderly : FileDocument → Prop
  | .document v => IsRecord v
  | .tooNew _ => True

theorem isRecord_parse {e : Toml.Edition} {text : List Char} {v : Json}
    (h : Toml.parse e text = .ok v) : IsRecord v := by
  unfold Toml.parse at h
  dsimp only [bind, Except.bind, pure, Except.pure] at h
  split at h
  · cases h
  · cases h
    exact isRecord_ofMembers _

variable {path : String} {d : FileDocument} {find : String → FileEntry}

theorem orderly_documentOf {text : String} (h : documentOf path text = some d) :
    d.Orderly := by
  unfold documentOf at h
  dsimp only at h
  split at h
  · split at h
    · next hparse =>
      cases h
      exact isRecord_parse hparse
    · cases h
      trivial
  · cases h

theorem FileDocument.Orderly.laid {lower : FileDocument} {upper : Json} (h : lower.Orderly)
    (hupper : IsRecord upper) : (lower.over upper).Orderly := by
  cases lower with
  | document v => exact hupper.overlay h
  | tooNew complaint => trivial

theorem orderly_loadFound {fuel : Nat} {chain : List String} {text : String}
    (h : loadFound (m := Id) find fuel chain path text = .ok d) : d.Orderly := by
  induction fuel generalizing chain path text d with
  | zero => cases h
  | succ fuel ih =>
    unfold loadFound at h
    dsimp only [bind, pure] at h
    split at h
    · cases h
    · split at h
      · cases h
      · cases h
        trivial
      · next v hdocument =>
        -- The file that this one extends, if there is one, is loaded with less fuel.
        have hrecord : IsRecord v := orderly_documentOf hdocument
        split at h
        · cases h
          exact hrecord
        · split at h
          · cases h
          · split at h <;> try cases h
            split at h
            · cases h
            · next hlower =>
              cases h
              exact (ih hlower).laid hrecord
        · cases h

theorem orderly_load (h : load (m := Id) find path = .ok (some d)) : 
    d.Orderly := by
  unfold load at h
  dsimp only [bind, pure] at h
  split at h <;> try cases h
  split at h
  · cases h
  · next hfound =>
    cases h
    exact orderly_loadFound hfound

end Files

namespace Settings

open Files

theorem orderly_tryFiles {find : String → FileEntry} {paths : List String} {s : FileSearch}
    (h : ∀ d ∈ s.document, d.Orderly) :
    ∀ d ∈ (tryFiles (m := Id) find paths s).document, d.Orderly := by
  induction paths generalizing s with
  | nil => exact h
  | cons path paths ih =>
    unfold tryFiles
    dsimp only [bind, pure]
    split
    · next d hload =>
      rintro d' hd'
      cases hd'
      exact orderly_load hload
    · exact ih h
    · exact ih h

theorem orderly_searchFiles {find : String → FileEntry} {required : Option String}
    {optional : List String} :
    ∀ d ∈ (searchFiles (m := Id) find required optional).document, d.Orderly := by
  unfold searchFiles
  dsimp only [bind, pure]
  split
  · exact orderly_tryFiles (by simp)
  · split
    · next d hload =>
      rintro d' hd'
      cases hd'
      exact orderly_load hload
    · exact orderly_tryFiles (by simp)
    · exact orderly_tryFiles (by simp)

end Settings

end LanguageClient
