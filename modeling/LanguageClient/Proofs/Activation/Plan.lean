import LanguageClient.Activation.Plan
import LanguageClient.Proofs.Text.Words

/-!
# Settings and the plans made from them

Whether settings can be honoured, which command they name, how the server is reached and how its
streams are wired is decided in four places. Here the four agree: what `validate` lets through can
be turned into a plan (`exists_plan`), what it rejects comes back as its own error, and a plan that
was made has every part that carrying it out needs (`Executable`).

The one error that could come from elsewhere, a command line without a program, cannot come: the
check trims the command and the command is split into words, and these two find nothing in the same
texts.
-/

namespace LanguageClient

namespace Settings

/-- Settings that break none of the three rules: a server that is not launched is reached over a
socket, a socket has a port, and there is a program to launch. -/
structure Coherent (s : Settings) : Prop where
  reachable : s.mode = .attached → s.transport = .socket
  port : s.transport = .socket → s.port ≠ 0
  program : s.mode = .managed → Text.wordsOf s.serverCommand ≠ []

theorem validate_eq_ok_iff {s : Settings} : s.validate = .ok () ↔ s.Coherent := by
  have hspawns : s.mode.spawnsServer = true ↔ s.mode = .managed := by
    cases s.mode <;> simp [LaunchMode.spawnsServer]
  have hkind : s.transport ≠ .stdio ↔ s.transport = .socket := by
    cases s.transport <;> simp
  simp only [validate, hspawns, Text.trimmed_eq_empty_iff]
  constructor
  · intro h
    split at h
    · cases h
    split at h
    · cases h
    split at h
    · cases h
    next hstdio hport hprogram =>
      refine ⟨fun hmode => ?_, fun hsocket hzero => hport ⟨hsocket, hzero⟩,
        fun hmode hnone => hprogram ⟨hmode, hnone⟩⟩
      exact hkind.mp fun hkind => hstdio ⟨hmode, hkind⟩
  · rintro ⟨hreachable, hport, hprogram⟩
    rw [if_neg, if_neg, if_neg]
    · rintro ⟨hmode, hnone⟩
      exact hprogram hmode hnone
    · rintro ⟨hsocket, hzero⟩
      exact hport hsocket hzero
    · rintro ⟨hmode, hstdio⟩
      exact hkind.mpr (hreachable hmode) hstdio

theorem serverArgs_eq (s : Settings) :
    s.serverArgs =
      "lsp" :: if s.transport = .socket then ["-p=" ++ toString s.port.toNat] else [] := by
  rw [serverArgs]
  cases s.transport <;> rfl

end Settings

theorem ServerCommand.ofSettings_eq {s : Settings} {program : String} {words : List String}
    (h : Text.wordsOf s.serverCommand = program :: words) :
    ServerCommand.ofSettings s = .ok { program, args := words ++ s.serverArgs } := by
  rw [ServerCommand.ofSettings, ServerCommand.parse, h]

namespace ActivationPlan

/-- A plan that can be carried out as the settings ask. A launched server gets the words of the
configured command and the client's own arguments, and its streams are piped exactly if they carry
the protocol; any other server has to be listening. -/
structure Executable (s : Settings) (plan : ActivationPlan) : Prop where
  managed : s.mode = .managed → ∃ program words,
    (Text.pieces s.serverCommand.toList).map String.ofList = program :: words ∧
    plan.command = some
      { program
        args := words ++ "lsp" ::
          if s.transport = .socket then ["-p=" ++ toString s.port.toNat] else []
        workingDir := none
        stdio := if s.transport = .stdio then .piped else .detached }
  attached : s.mode = .attached → plan.command = none ∧ s.transport = .socket
  stdio : s.transport = .stdio → plan.transport = .stdio s.serverCommand ["lsp"]
  socket : s.transport = .socket → plan.transport = .socket s.host s.port ∧ s.port ≠ 0
  filter : plan.filter = {}

theorem stdioFor_kind (s : Settings) :
    stdioFor (Transport.ofSettings s).kind =
      if s.transport = .stdio then .piped else .detached := by
  rw [Transport.ofSettings]
  cases s.transport <;> rfl

theorem ofSettings_stdio {s : Settings} (h : s.transport = .stdio) :
    Transport.ofSettings s = .stdio s.serverCommand ["lsp"] := by
  simp [Transport.ofSettings, h, Settings.serverArgs, Settings.serveSubcommand]

theorem ofSettings_socket {s : Settings} (h : s.transport = .socket) :
    Transport.ofSettings s = .socket s.host s.port := by
  simp [Transport.ofSettings, h]

theorem exists_plan {s : Settings} (h : s.Coherent) :
    ∃ plan, ofSettings s = .ok plan ∧ plan.Executable s := by
  have hvalid : s.validate = .ok () := Settings.validate_eq_ok_iff.mpr h
  rw [ofSettings, hvalid]
  cases hmode : s.mode with
  | managed =>
    obtain ⟨program, words, hwords⟩ := List.exists_cons_of_ne_nil (h.program hmode)
    simp only [ServerCommand.ofSettings_eq hwords]
    refine ⟨_, rfl, fun _ => ⟨program, words, ?_, ?_⟩, ?_, ofSettings_stdio, ?_, rfl⟩
    · rw [← Text.wordsOf_eq, hwords]
    · simp only [managed, Settings.serverArgs_eq, stdioFor_kind]
    · intro hattached
      cases hmode.symm.trans hattached
    · intro hsocket
      exact ⟨ofSettings_socket hsocket, h.port hsocket⟩
  | attached =>
    refine ⟨_, rfl, ?_, fun _ => ⟨rfl, h.reachable hmode⟩, ofSettings_stdio, ?_, rfl⟩
    · intro hmanaged
      cases hmode.symm.trans hmanaged
    · intro hsocket
      exact ⟨ofSettings_socket hsocket, h.port hsocket⟩

theorem ofSettings_of_invalid {s : Settings} {cause : SettingsError}
    (h : s.validate = .error cause) : ofSettings s = .error (.settings cause) := by
  rw [ofSettings, h]

/-- A plan is made of settings exactly if they are valid, and it can then be carried out; otherwise
the error is the one that the validation gives. That there is no program to launch is never found
out later, since a command is blank exactly if it has no words. -/
theorem plan_follows_validation (s : Settings) :
    ((∃ plan, ofSettings s = .ok plan) ↔ s.validate = .ok ()) ∧
    (∀ e, ofSettings s = .error e ↔ ∃ cause, s.validate = .error cause ∧ e = .settings cause) ∧
    (∀ cause, ofSettings s ≠ .error (.launch cause)) ∧
    (∀ text, Text.trimmed text = "" ↔ Text.wordsOf text = []) ∧
    ∀ plan, ofSettings s = .ok plan → plan.Executable s := by
  cases hvalid : s.validate with
  | error cause =>
    rw [ofSettings_of_invalid hvalid]
    refine ⟨by simp, ?_, by simp, Text.trimmed_eq_empty_iff, by simp⟩
    intro e
    simp [eq_comm]
  | ok _ =>
    obtain ⟨plan, hplan, hexecutable⟩ := exists_plan (Settings.validate_eq_ok_iff.mp hvalid)
    rw [hplan]
    refine ⟨by simp, by simp, by simp, Text.trimmed_eq_empty_iff, ?_⟩
    rintro plan ⟨⟩
    exact hexecutable

/-- A command with a wrapper in front of it, set off by blanks that are not ASCII. -/
theorem plan_of_wrapped_command :
    let s : Settings := { serverCommand := "\u3000env\u00a0A=1  fireball\n", port := 65535 }
    let plan : ActivationPlan :=
      { command := some { program := "env", args := ["A=1", "fireball", "lsp", "-p=65535"] }
        transport := .socket "127.0.0.1" 65535 }
    ofSettings s = .ok plan ∧ plan.Executable s := by
  intro s plan
  have hplan : ofSettings s = .ok plan := by decide +kernel
  obtain ⟨-, -, -, -, hexecutable⟩ := plan_follows_validation s
  exact ⟨hplan, hexecutable plan hplan⟩

end ActivationPlan

end LanguageClient
