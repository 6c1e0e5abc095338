import LanguageClient.Proofs.Activation.CommandLine

/-!
# What plans say about the server that they reach

The transport of a plan tells what the client speaks to: over standard streams the launched program
and its arguments, over a socket the endpoint that is dialled. The two ways of making a plan do not
take the same care with it.

A plan from a line names the command that it launches. A plan from settings names the configured
text as one program, which is right exactly if that text is a single word
(`streams_name_what_is_launched`). Settings never lead to port zero, since they are validated first;
a line does exactly if it asks for it (`zero_is_dialled_only_if_asked_for`).
-/

namespace LanguageClient.ActivationPlan

open ServerCommand (FirstPort)

variable {line : String} {plan : ActivationPlan} {port : UInt16}

theorem executable_of_ofSettings {s : Settings} (h : ofSettings s = .ok plan) :
    plan.Executable s := by
  cases hvalid : s.validate with
  | error cause => cases (ofSettings_of_invalid hvalid).symm.trans h
  | ok _ =>
    obtain ⟨plan', hplan, hexecutable⟩ := exists_plan (Settings.validate_eq_ok_iff.mp hvalid)
    obtain rfl := Except.ok.inj (h.symm.trans hplan)
    exact hexecutable

theorem exists_command_of_ofCommandLine (h : ofCommandLine line = .ok plan) :
    ∃ c, Text.wordsOf line = c.program :: c.args ∧ plan = managed c c.reachedOver := by
  cases hparse : ServerCommand.parse line with
  | error cause =>
    rw [ofCommandLine, hparse] at h
    cases h
  | ok c =>
    obtain rfl := Except.ok.inj ((ofCommandLine_of_parse hparse).symm.trans h)
    exact ⟨c, (ServerCommand.parse_eq_ok_iff.mp hparse).1, rfl⟩

/-! ## Standard streams -/

/-- The transport of the plan names the program and the arguments that the plan launches. -/
def NamesCommand (plan : ActivationPlan) : Prop :=
  ∃ command, plan.command = some command ∧ plan.transport = .stdio command.program command.args

theorem namesCommand_of_ofCommandLine (h : ofCommandLine line = .ok plan)
    (hkind : plan.transport.kind = .stdio) : plan.NamesCommand := by
  obtain ⟨c, -, rfl⟩ := exists_command_of_ofCommandLine h
  refine ⟨_, rfl, ServerCommand.reachedOver_eq_stdio_iff.mpr ?_⟩
  change c.reachedOver.kind = .stdio at hkind
  cases hport : c.portArgument with
  | none => rfl
  | some port =>
    rw [ServerCommand.reachedOver_eq_socket_iff.mpr hport] at hkind
    cases hkind

/-- Over standard streams, a plan from settings launches the words of the configured command and
names its text, so it names what it launches exactly if the text is one word. A plan from a line
always does. -/
theorem streams_name_what_is_launched (s : Settings) (line : String) (plan : ActivationPlan) :
    (ofSettings s = .ok plan → s.mode = .managed → s.transport = .stdio →
      ∃ program words, Text.wordsOf s.serverCommand = program :: words ∧
        plan.command = some { program, args := words ++ ["lsp"], stdio := .piped } ∧
        plan.transport = .stdio s.serverCommand ["lsp"] ∧
        (plan.NamesCommand ↔ Text.IsWord s.serverCommand)) ∧
    (ofCommandLine line = .ok plan → plan.transport.kind = .stdio → plan.NamesCommand) := by
  refine ⟨fun hplan hmode hstdio => ?_, namesCommand_of_ofCommandLine⟩
  have hexecutable := executable_of_ofSettings hplan
  obtain ⟨program, words, hwords, hcommand⟩ := hexecutable.managed hmode
  have htransport := hexecutable.stdio hstdio
  rw [← Text.wordsOf_eq] at hwords
  simp only [hstdio, reduceCtorEq, if_false, if_true] at hcommand
  refine ⟨program, words, hwords, hcommand, htransport, ?_, fun hword => ?_⟩
  · rintro ⟨command, hsome, hnames⟩
    obtain rfl := Option.some.inj (hcommand.symm.trans hsome)
    rw [(Transport.stdio.inj (htransport.symm.trans hnames)).1]
    exact Text.isWord_of_mem_wordsOf (hwords ▸ List.mem_cons_self)
  · obtain ⟨rfl, rfl⟩ := List.cons.inj (hwords.symm.trans hword.wordsOf_eq)
    exact ⟨_, hcommand, htransport⟩

/-- A program whose path is not ASCII, and a line in which a port flag has no readable value. -/
theorem streams_name_what_is_launched_by_path :
    let bySettings : ActivationPlan :=
      { command := some { program := "/opt/é/srv", args := ["lsp"], stdio := .piped }
        transport := .stdio "/opt/é/srv" ["lsp"] }
    let byLine : ActivationPlan :=
      { command := some { program := "srv", args := ["-p=x", "-p=80"], stdio := .piped }
        transport := .stdio "srv" ["-p=x", "-p=80"] }
    (ofSettings { transport := .stdio, serverCommand := "/opt/é/srv" } = .ok bySettings ∧
      bySettings.NamesCommand) ∧
    ofCommandLine "\u3000srv  -p=x\t-p=80" = .ok byLine ∧ byLine.NamesCommand := by
  intro bySettings byLine
  have hsettings : ofSettings { transport := .stdio, serverCommand := "/opt/é/srv" } =
      .ok bySettings := by decide +kernel
  have hline : ofCommandLine "\u3000srv  -p=x\t-p=80" = .ok byLine := by decide +kernel
  obtain ⟨program, words, -, -, -, hiff⟩ :=
    (streams_name_what_is_launched _ "" _).1 hsettings rfl rfl
  have hword : ("/opt/é/srv".toList.all fun c => !Text.isBlank c) = true := by decide +kernel
  refine ⟨⟨hsettings, hiff.mpr ⟨by decide, ?_⟩⟩, hline,
    (streams_name_what_is_launched {} _ _).2 hline rfl⟩
  simpa using hword

/-- A command with a wrapper in front of it is launched as its words, but named as one program. -/
theorem wrapper_named_as_program :
    let plan : ActivationPlan :=
      { command := some
          { program := "env", args := ["RUST_LOG=debug", "fireball", "lsp"], stdio := .piped }
        transport := .stdio "env RUST_LOG=debug fireball" ["lsp"] }
    ofSettings { transport := .stdio, serverCommand := "env RUST_LOG=debug fireball" } = .ok plan ∧
      ¬ plan.NamesCommand := by
  intro plan
  refine ⟨by decide +kernel, ?_⟩
  rintro ⟨command, hsome, hnames⟩
  obtain rfl := Option.some.inj hsome
  exact absurd hnames (by decide)

/-! ## Sockets -/

/-- The first port flag of a line has this port for its value, however it is written. -/
def AsksFor (line : String) (port : UInt16) : Prop :=
  ∃ program args value, Text.wordsOf line = program :: args ∧ FirstPort args value ∧
    Text.IsNumeral value.toList port.toNat

theorem asksFor_iff :
    AsksFor line port ↔
      ∃ program args, Text.wordsOf line = program :: args ∧
        ServerCommand.portIn args = some port := by
  simp only [AsksFor, ServerCommand.portIn_eq_some_iff, exists_and_left]

theorem exists_socket_iff :
    (∃ plan host, ofCommandLine line = .ok plan ∧ plan.transport = .socket host port) ↔
      AsksFor line port := by
  rw [asksFor_iff]
  constructor
  · rintro ⟨plan, host, hplan, hsocket⟩
    obtain ⟨c, hwords, rfl⟩ := exists_command_of_ofCommandLine hplan
    refine ⟨c.program, c.args, hwords, ?_⟩
    change c.reachedOver = .socket host port at hsocket
    rw [ServerCommand.reachedOver] at hsocket
    split at hsocket
    · next hport => exact hport.trans (congrArg some (Transport.socket.inj hsocket).2)
    · cases hsocket
  · rintro ⟨program, args, hwords, hport⟩
    refine ⟨_, _, ofCommandLine_of_parse (c := { program, args }) ?_,
      ServerCommand.reachedOver_eq_socket_iff.mpr hport⟩
    exact ServerCommand.parse_eq_ok_iff.mpr ⟨hwords, rfl, rfl⟩

/-- No plan from settings dials port zero. No plan from a line does either, exactly if the line does
not ask for it. -/
theorem zero_is_dialled_only_if_asked_for (s : Settings) (line : String) :
    (∀ plan host port, ofSettings s = .ok plan → plan.transport = .socket host port → port ≠ 0) ∧
    ((∀ plan host port, ofCommandLine line = .ok plan → plan.transport = .socket host port →
      port ≠ 0) ↔ ¬ AsksFor line 0) := by
  refine ⟨fun plan host port hplan htransport => ?_, ?_⟩
  · have hexecutable := executable_of_ofSettings hplan
    cases hkind : s.transport with
    | stdio => cases htransport.symm.trans (hexecutable.stdio hkind)
    | socket =>
      obtain ⟨hsocket, hport⟩ := hexecutable.socket hkind
      rw [(Transport.socket.inj (htransport.symm.trans hsocket)).2]
      exact hport
  · rw [← exists_socket_iff]
    constructor
    · rintro hnever ⟨plan, host, hplan, hsocket⟩
      exact hnever plan host 0 hplan hsocket rfl
    · rintro hnone plan host port hplan hsocket rfl
      exact hnone ⟨plan, host, hplan, hsocket⟩

/-- A port with zeros in front of it, and a flag for port zero that comes too late. -/
theorem late_zero_not_dialled :
    let plan : ActivationPlan :=
      { command := some { program := "srv", args := ["--port", "+0080", "-p=0"] }
        transport := .socket "127.0.0.1" 80 }
    ofCommandLine "srv --port +0080\t-p=0" = .ok plan ∧ ¬ AsksFor "srv --port +0080\t-p=0" 0 ∧
      (80 : UInt16) ≠ 0 := by
  intro plan
  have hplan : ofCommandLine "srv --port +0080\t-p=0" = .ok plan := by decide +kernel
  have hwords : Text.wordsOf "srv --port +0080\t-p=0" = ["srv", "--port", "+0080", "-p=0"] := by
    decide +kernel
  have hasks : ¬ AsksFor "srv --port +0080\t-p=0" 0 := by
    rw [asksFor_iff, hwords]
    rintro ⟨program, args, heq, hport⟩
    obtain ⟨rfl, rfl⟩ := List.cons.inj heq
    exact absurd hport (by decide +kernel)
  exact ⟨hplan, hasks, (zero_is_dialled_only_if_asked_for {} _).2.mpr hasks plan _ _ hplan rfl⟩

/-- Port zero is taken from a line and refused in settings. -/
theorem zero_dialled_from_line :
    let plan : ActivationPlan :=
      { command := some { program := "fireball", args := ["lsp", "-p=0"] }
        transport := .socket "127.0.0.1" 0 }
    ofCommandLine "fireball lsp -p=0" = .ok plan ∧
      ofSettings { port := 0 } = .error (.settings .zeroPort) := by
  decide +kernel

end LanguageClient.ActivationPlan
