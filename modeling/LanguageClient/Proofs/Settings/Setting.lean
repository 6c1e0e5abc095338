import LanguageClient.Proofs.Json.Overlay
import LanguageClient.Settings.Flags

/-!
# One setting at a time

The seven settings are fields of three records and rows of two tables. Statements about each of them
are made here about a `Setting`, which says where it is found: its field of the settings (`get`, `set`),
its flag and what the flag's text means (`flag`, `readText`, `given`), and its key in a document and what
the value behind the key means (`key`, `decode`, `encode`).

`storeMembers_get` is what decoding a document comes to: each setting is what stands behind its key,
or what it was before.
-/

namespace LanguageClient

open Json

inductive Setting where
  | mode
  | transport
  | serverCommand
  | host
  | port
  | logFilter
  | logFormat
  deriving DecidableEq, Repr

namespace Setting

/-- In the order in which a document is declared. -/
def all : List Setting := [mode, transport, serverCommand, host, port, logFilter, logFormat]

def Value : Setting → Type
  | mode => LaunchMode
  | transport => TransportKind
  | port => UInt16
  | logFormat => LogFormat
  | serverCommand | host | logFilter => String

def get : (k : Setting) → Settings → k.Value
  | mode, s => s.mode
  | transport, s => s.transport
  | serverCommand, s => s.serverCommand
  | host, s => s.host
  | port, s => s.port
  | logFilter, s => s.logFilter
  | logFormat, s => s.logFormat

def set : (k : Setting) → k.Value → Settings → Settings
  | mode, v, s => { s with mode := v }
  | transport, v, s => { s with transport := v }
  | serverCommand, v, s => { s with serverCommand := v }
  | host, v, s => { s with host := v }
  | port, v, s => { s with port := v }
  | logFilter, v, s => { s with logFilter := v }
  | logFormat, v, s => { s with logFormat := v }

theorem get_set_self (k : Setting) (v : k.Value) (s : Settings) : k.get (k.set v s) = v := by
  cases k <;> rfl

variable {k : Setting} {ms : List (String × Json)}

theorem get_set_of_ne {j : Setting} (h : k ≠ j) (v : j.Value) (s : Settings) :
    k.get (j.set v s) = k.get s := by
  cases j <;> cases k <;> first | rfl | exact absurd rfl h

/-! ## On the command line -/

def flag : Setting → Flag
  | mode => .mode
  | transport => .transport
  | serverCommand => .serverCommand
  | host => .host
  | port => .port
  | logFilter => .logFilter
  | logFormat => .logFormat

def given : (k : Setting) → Flags → Option k.Value
  | mode, f => f.mode
  | transport, f => f.transport
  | serverCommand, f => f.serverCommand
  | host, f => f.host
  | port, f => f.port
  | logFilter, f => f.logFilter
  | logFormat, f => f.logFormat

def readText : (k : Setting) → String → Option k.Value
  | mode, text => LaunchMode.ofName? text
  | transport, text => TransportKind.ofName? text
  | port, text => Flags.readPort text
  | logFormat, text => LogFormat.ofName? text
  | serverCommand, text | host, text | logFilter, text => some text

/-- What counts of what is given: flags that repeat all defaults do not. -/
def counted (k : Setting) (f : Flags) : Option k.Value :=
  if f.repeatsDefaults then none else k.given f

theorem repeatsDefaults_iff (f : Flags) :
    f.repeatsDefaults = true ↔ ∀ k : Setting, k.given f = some (k.get Settings.default) := by
  simp only [Flags.repeatsDefaults, Bool.and_eq_true, beq_iff_eq]
  constructor
  · rintro ⟨⟨⟨⟨⟨⟨hmode, htransport⟩, hcommand⟩, hhost⟩, hport⟩, hfilter⟩, hformat⟩ k
    cases k <;> assumption
  · intro h
    exact ⟨⟨⟨⟨⟨⟨h mode, h transport⟩, h serverCommand⟩, h host⟩, h port⟩, h logFilter⟩, h logFormat⟩

/-! ## In a document -/

def key : Setting → String
  | mode => "mode"
  | transport => "transport"
  | serverCommand => "server_command"
  | host => "host"
  | port => "port"
  | logFilter => "log_filter"
  | logFormat => "log_format"

theorem key_inj {j : Setting} (h : j.key = k.key) : j = k := by
  cases j <;> cases k <;> first | rfl | exact absurd h (by decide)

def decode : (k : Setting) → Json → Decoded k.Value
  | mode, v => asVariant LaunchMode.names v
  | transport, v => asVariant TransportKind.names v
  | port, v => (asNatUpTo Text.maxWord16 "u16" v).map UInt16.ofNat
  | logFormat, v => asVariant LogFormat.names v
  | serverCommand, v | host, v | logFilter, v => asString v

def encode : (k : Setting) → k.Value → Json
  | mode, v => .str (LaunchMode.name v)
  | transport, v => .str (TransportKind.name v)
  | port, v => Json.ofNat (UInt16.toNat v)
  | logFormat, v => .str (LogFormat.name v)
  | serverCommand, v | host, v | logFilter, v => .str v

theorem decode_encode (k : Setting) (v : k.Value) : k.decode (k.encode v) = .ok v := by
  cases k with
  | mode | transport | logFormat => cases v <;> rfl
  | serverCommand | host | logFilter => rfl
  | port =>
    have hle : UInt16.toNat v ≤ Text.maxWord16 := Nat.le_of_lt_succ (UInt16.toNat_lt v)
    simp only [decode, encode, asNatUpTo, asIntBetween, Json.ofNat]
    rw [if_pos (by simp [hle])]
    exact congrArg Except.ok (UInt16.ofNat_toNat (x := v))

def field (k : Setting) : Json.Field Settings :=
  ⟨k.key, .optional, fun v s => do return k.set (← k.decode v) s⟩

theorem jsonFields_eq : Settings.jsonFields = all.map field := by
  simp only [Settings.jsonFields, all, List.map_cons, List.map_nil, List.cons.injEq, and_true]
  refine ⟨rfl, rfl, rfl, rfl, ?_, rfl, rfl⟩
  refine congrArg (Json.Field.mk "port" .optional) (funext fun v => funext fun s => ?_)
  simp only [decode]
  cases asNatUpTo Text.maxWord16 "u16" v <;> rfl

theorem find?_jsonFields (name : String) :
    Settings.jsonFields.find? (·.name == name) = (all.find? (·.key == name)).map field := by
  rw [jsonFields_eq, List.find?_map]
  rfl

theorem find?_key (k : Setting) : all.find? (·.key == k.key) = some k := by
  cases k <;> rfl

theorem ne_of_find?_eq_none {name : String} (h : all.find? (·.key == name) = none) (k : Setting) :
    k.key ≠ name := by
  rintro rfl
  rw [find?_key] at h
  cases h

theorem bind_eq_ok {ε α β : Type} {x : Except ε α} {f : α → Except ε β} {b : β}
    (h : x >>= f = .ok b) : ∃ a, x = .ok a ∧ f a = .ok b := by
  cases x with
  | error e => cases h
  | ok a => exact ⟨a, rfl, h⟩

theorem storeMembers_get {start s : Settings} (hsorted : Sorted ms)
    (h : storeMembers Settings.jsonFields ms start = .ok s) (k : Setting) :
    ((ms.lookup k.key).map k.decode).getD (.ok (k.get start)) = .ok (k.get s) := by
  induction ms generalizing start with
  | nil =>
    obtain rfl := Except.ok.inj h
    rfl
  | cons m ms ih =>
    obtain ⟨name, v⟩ := m
    have hrest := (List.pairwise_cons.mp hsorted).2
    rw [storeMembers, find?_jsonFields] at h
    cases hfind : all.find? (·.key == name) with
    | none =>
      rw [hfind] at h
      rw [lookup_member, if_neg (ne_of_find?_eq_none hfind k)]
      exact ih hrest h
    | some j =>
      rw [hfind] at h
      obtain rfl : j.key = name := by simpa using List.find?_some hfind
      simp only [Option.map_some, field] at h
      obtain ⟨_, hstore, h⟩ := bind_eq_ok h
      obtain ⟨x, hdecode, heq⟩ := bind_eq_ok hstore
      obtain rfl := Except.ok.inj heq
      have hnext := ih hrest h
      by_cases hk : k = j
      · -- The members are in order, so no later one has the same key.
        subst hk
        rw [lookup_eq_none_of_sorted hsorted] at hnext
        rw [List.lookup_cons_self, Option.map_some, Option.getD_some, hdecode, ← hnext]
        exact congrArg Except.ok (get_set_self k x start).symm
      · rw [lookup_member, if_neg (mt key_inj hk), ← hnext, get_set_of_ne hk]

theorem ofJson_get {s : Settings} (hsorted : Sorted ms) (h : Settings.ofJson (.obj ms) = .ok s)
    (k : Setting) :
    ((ms.lookup k.key).map k.decode).getD (.ok (k.get Settings.default)) = .ok (k.get s) := by
  rw [Settings.ofJson, asRecord] at h
  obtain ⟨stored, hstore, h⟩ := bind_eq_ok h
  obtain rfl := Except.ok.inj h
  exact storeMembers_get hsorted hstore k

/-! ## Values over values -/

theorem asVariant_obj {α : Type} {names : List (String × α)} {a : α}
    (h : asVariant names (.obj ms) = .ok a) : ∃ name, ms = [(name, .null)] := by
  rcases ms with _ | ⟨⟨name, v⟩, _ | ⟨m, ms⟩⟩
  · cases h
  · rw [asVariant] at h
    obtain ⟨b, -, h⟩ := bind_eq_ok h
    cases v with
    | null => exact ⟨name, rfl⟩
    | _ => cases h
  · cases h

/-- A record stands for a setting only as a name with nothing behind it. -/
theorem decode_obj {x : k.Value} (h : k.decode (.obj ms) = .ok x) :
    ∃ name, ms = [(name, .null)] := by
  cases k with
  | mode | transport | logFormat => exact asVariant_obj h
  | serverCommand | host | logFilter | port => cases h

/-- A value that says something and lies over another one counts alone. -/
theorem decode_of_overlay {u l : Json} {x : k.Value} (hu : Tidy u) (hsome : u ≠ .obj [])
    (h : k.decode (u.overlay l) = .ok x) : k.decode u = .ok x := by
  cases u with
  | obj upper =>
    cases l with
    | obj lower =>
      rw [overlay] at h
      obtain ⟨name, hname⟩ := decode_obj h
      have hne : upper ≠ [] := fun hnil => hsome (congrArg Json.obj hnil)
      rw [eq_of_overlayMembers (hu upper rfl) hne hname]
      rwa [hname] at h
    | _ => exact h
  | _ => exact h

theorem decode_of_overlay_empty {l : Json} {x : k.Value}
    (h : k.decode ((Json.obj []).overlay l) = .ok x) : k.decode l = .ok x := by
  cases l with
  | obj lower =>
    rw [overlay, overlayMembers] at h
    exact h
  | _ =>
    obtain ⟨name, hname⟩ := decode_obj h
    cases hname

end Setting

end LanguageClient
