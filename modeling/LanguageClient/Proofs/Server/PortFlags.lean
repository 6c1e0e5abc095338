import LanguageClient.Proofs.Text.Words
import LanguageClient.Server.Command

/-!
# Command lines and the port they ask for

A command is written by putting blanks between its words and read by cutting at blanks. The words of
a line hold no blank, so a command that was read can be written and read again without loss
(`parse_text`).

Which port the arguments ask for is told by the first port flag among them, and by no other
(`FirstPort`): a flag is joined to its value or stands before it, and once one is found its value
settles the matter, readable or not. `portIn_eq_some_iff` says that the scan finds this flag.
-/

namespace LanguageClient.ServerCommand

/-! ## Writing and reading -/

theorem parse_eq_ok_iff {line : String} {c : ServerCommand} :
    parse line = .ok c ↔
      Text.wordsOf line = c.program :: c.args ∧ c.workingDir = none ∧ c.stdio = .detached := by
  obtain ⟨program, args, workingDir, stdio⟩ := c
  rw [parse]
  cases Text.wordsOf line with
  | nil => simp
  | cons word words =>
    simp only [Except.ok.injEq, mk.injEq, List.cons.injEq, and_assoc]
    exact ⟨fun ⟨h₁, h₂, h₃, h₄⟩ => ⟨h₁, h₂, h₃.symm, h₄.symm⟩,
      fun ⟨h₁, h₂, h₃, h₄⟩ => ⟨h₁, h₂, h₃.symm, h₄.symm⟩⟩

theorem parse_eq_error_iff {line : String} {e : LaunchError} :
    parse line = .error e ↔ e = .emptyCommand ∧ ∀ c ∈ line.toList, Text.isBlank c = true := by
  rw [← Text.wordsOf_eq_nil_iff, parse]
  cases Text.wordsOf line <;> simp [eq_comm]

theorem parse_text {c : ServerCommand} (hprogram : Text.IsWord c.program)
    (hargs : ∀ arg ∈ c.args, Text.IsWord arg) :
    parse c.text = .ok { program := c.program, args := c.args } := by
  refine parse_eq_ok_iff.mpr ⟨?_, rfl, rfl⟩
  rw [text, Text.wordsOf_line hargs, hprogram.wordsOf_eq, List.singleton_append]

/-! ## Port flags -/

/-- Arguments that begin with a port flag: its value is joined to it, or is the next argument. -/
inductive PortFlag : List String → String → Prop where
  | joined {flag value : String} {rest : List String} (h : flag = "-p=" ∨ flag = "--port=") :
      PortFlag ((flag ++ value) :: rest) value
  | apart {flag value : String} {rest : List String} (h : flag = "-p" ∨ flag = "--port") :
      PortFlag (flag :: value :: rest) value

/-- The first port flag among the arguments has this value. -/
inductive FirstPort : List String → String → Prop where
  | here {args : List String} {value : String} (h : PortFlag args value) : FirstPort args value
  | later {arg value : String} {rest : List String}
      (hnone : ∀ value, ¬ PortFlag (arg :: rest) value)
      (h : FirstPort rest value) : FirstPort (arg :: rest) value

/-- An argument that is a port flag, with or without a value. -/
def NamesPort (arg : String) : Prop :=
  arg = "-p" ∨ arg = "--port" ∨ "-p=".toList <+: arg.toList ∨ "--port=".toList <+: arg.toList

instance (arg : String) : Decidable (NamesPort arg) :=
  inferInstanceAs (Decidable (_ ∨ _ ∨ _ ∨ _))

theorem readPort_eq_some_iff {text : List Char} {port : UInt16} :
    readPort text = some port ↔ Text.IsNumeral text port.toNat := by
  simp only [readPort, Option.map_eq_some_iff, Text.readNumeral_eq_some_iff, Text.maxWord16]
  constructor
  · rintro ⟨n, ⟨hn, hle⟩, rfl⟩
    have hlt : n < UInt16.size := Nat.lt_succ_of_le hle
    rwa [UInt16.toNat_ofNat_of_lt' hlt]
  · intro h
    have hlt := port.toNat_lt
    exact ⟨port.toNat, ⟨h, by omega⟩, UInt16.ofNat_toNat⟩

theorem afterFront_eq_some_iff {front cs rest : List Char} :
    afterFront front cs = some rest ↔ cs = front ++ rest := by
  induction front generalizing cs with
  | nil => simp [afterFront]
  | cons p front ih =>
    cases cs with
    | nil => simp [afterFront]
    | cons c cs =>
      by_cases hp : p = c
      · simp [afterFront, hp, ih]
      · simp [afterFront, hp, Ne.symm hp]

theorem afterFront_eq_none_iff {front cs : List Char} :
    afterFront front cs = none ↔ ¬ front <+: cs := by
  rw [Option.eq_none_iff_forall_ne_some]
  simp only [ne_eq, afterFront_eq_some_iff]
  exact ⟨fun h ⟨rest, hrest⟩ => h rest hrest.symm, fun h rest hrest => h ⟨rest, hrest.symm⟩⟩

theorem joinedPortValue_append {flag : String} (h : flag = "-p=" ∨ flag = "--port=")
    (value : String) : joinedPortValue (flag ++ value) = some value.toList := by
  rw [joinedPortValue, String.toList_append]
  rcases h with rfl | rfl
  · rw [afterFront_eq_some_iff.mpr rfl, Option.some_or]
  · rw [afterFront_eq_none_iff.mpr (by simp [List.cons_prefix_cons]), Option.none_or,
      afterFront_eq_some_iff.mpr rfl]

theorem exists_of_joinedPortValue {arg : String} {value : List Char}
    (h : joinedPortValue arg = some value) :
    ∃ flag, (flag = "-p=" ∨ flag = "--port=") ∧ arg = flag ++ String.ofList value := by
  have hwhole : ∀ flag : String, afterFront flag.toList arg.toList = some value →
      arg = flag ++ String.ofList value := by
    intro flag hflag
    rw [← String.toList_inj, afterFront_eq_some_iff.mp hflag]
    simp
  rcases Option.or_eq_some_iff.mp h with h | ⟨-, h⟩
  · exact ⟨"-p=", .inl rfl, hwhole _ h⟩
  · exact ⟨"--port=", .inr rfl, hwhole _ h⟩

theorem joinedPortValue_of_apart {flag : String} (h : flag = "-p" ∨ flag = "--port") :
    joinedPortValue flag = none := by
  rcases h with rfl | rfl <;> decide

/-! ## The scan -/

theorem PortFlag.portIn_eq {args : List String} {value : String} (h : PortFlag args value) :
    portIn args = readPort value.toList := by
  cases h with
  | joined h => simp only [portIn, joinedPortValue_append h]
  | apart h => simp only [portIn, joinedPortValue_of_apart h, if_pos h]

/-- What is no port flag is passed over; so is a flag at the end that has no value. -/
theorem portIn_cons_of_not_portFlag {arg : String} {rest : List String}
    (h : ∀ value, ¬ PortFlag (arg :: rest) value) : portIn (arg :: rest) = portIn rest := by
  cases hjoined : joinedPortValue arg with
  | some value =>
    obtain ⟨flag, hflag, rfl⟩ := exists_of_joinedPortValue hjoined
    exact absurd (.joined hflag) (h _)
  | none =>
    simp only [portIn, hjoined]
    split
    · next hflag =>
      cases rest with
      | nil => rfl
      | cons value rest => exact absurd (.apart hflag) (h value)
    · rfl

theorem portIn_eq_some_iff {args : List String} {port : UInt16} :
    portIn args = some port ↔
      ∃ value, FirstPort args value ∧ Text.IsNumeral value.toList port.toNat := by
  constructor
  · intro h
    induction args with
    | nil => cases h
    | cons arg rest ih =>
      by_cases hflag : ∃ value, PortFlag (arg :: rest) value
      · obtain ⟨value, hvalue⟩ := hflag
        rw [hvalue.portIn_eq] at h
        exact ⟨value, .here hvalue, readPort_eq_some_iff.mp h⟩
      · have hnone := not_exists.mp hflag
        rw [portIn_cons_of_not_portFlag hnone] at h
        obtain ⟨value, hfirst, hnumeral⟩ := ih h
        exact ⟨value, .later hnone hfirst, hnumeral⟩
  · rintro ⟨value, hfirst, hnumeral⟩
    induction hfirst with
    | here h => rw [h.portIn_eq, readPort_eq_some_iff.mpr hnumeral]
    | later hnone _ ih => rw [portIn_cons_of_not_portFlag hnone, ih hnumeral]

theorem PortFlag.namesPort {arg value : String} {rest : List String}
    (h : PortFlag (arg :: rest) value) : NamesPort arg := by
  cases h with
  | joined h =>
    rcases h with rfl | rfl
    · exact .inr (.inr (.inl (by simp)))
    · exact .inr (.inr (.inr (by simp)))
  | apart h => exact h.imp_right .inl

theorem portIn_append_of_not_namesPort {before rest : List String}
    (h : ∀ arg ∈ before, ¬ NamesPort arg) : portIn (before ++ rest) = portIn rest := by
  induction before with
  | nil => rfl
  | cons arg before ih =>
    obtain ⟨harg, hbefore⟩ := List.forall_mem_cons.mp h
    rw [List.cons_append, portIn_cons_of_not_portFlag fun value hflag => harg hflag.namesPort,
      ih hbefore]

end LanguageClient.ServerCommand
