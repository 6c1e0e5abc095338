import LanguageClient.Proofs.Activation.Plan
import LanguageClient.Proofs.Server.PortFlags

/-!
# Plans made from command lines

A plan can be made from settings, which say how the server is reached and put the port among the
arguments of the server, or from a command line, among whose arguments the port is looked for. The
plan shows the command that it launches as a line, so one can ask what the plan of that line is.

It is the same plan, for every plan that comes from a line (`command_line_plans_are_stable`) and for
the plans that come from settings as far as a line can say what they say: over a socket of the loopback
host, with no other port flag in front of the client's own (`settings_and_command_line_agree`).
-/

namespace LanguageClient

namespace ServerCommand

def reachedOver (c : ServerCommand) : Transport :=
  match c.portArgument with
  | some port => .socket "127.0.0.1" port
  | none => .stdio c.program c.args

theorem reachedOver_eq_socket_iff {c : ServerCommand} {port : UInt16} :
    c.reachedOver = .socket "127.0.0.1" port ↔ c.portArgument = some port := by
  rw [reachedOver]
  cases c.portArgument <;> simp

theorem reachedOver_eq_stdio_iff {c : ServerCommand} :
    c.reachedOver = .stdio c.program c.args ↔ c.portArgument = none := by
  rw [reachedOver]
  cases c.portArgument <;> simp

end ServerCommand

open ServerCommand (PortFlag FirstPort NamesPort)

namespace ActivationPlan

variable {line : String} {c : ServerCommand}

theorem ofCommandLine_of_parse (h : ServerCommand.parse line = .ok c) :
    ofCommandLine line = .ok (managed c c.reachedOver) := by
  rw [ofCommandLine, h]
  rfl

theorem ofCommandLine_eq_error_iff {e : ActivationError} :
    ofCommandLine line = .error e ↔
      e = .launch .emptyCommand ∧ ∀ c ∈ line.toList, Text.isBlank c = true := by
  cases hparse : ServerCommand.parse line with
  | ok c =>
    have hwords := (ServerCommand.parse_eq_ok_iff.mp hparse).1
    rw [ofCommandLine_of_parse hparse, ← Text.wordsOf_eq_nil_iff, hwords]
    simp
  | error cause =>
    obtain ⟨rfl, hblank⟩ := ServerCommand.parse_eq_error_iff.mp hparse
    rw [ofCommandLine, hparse]
    exact ⟨fun h => ⟨(Except.error.inj h).symm, hblank⟩, fun h => by rw [h.1]⟩

/-! ## Lines -/

/-- The plan launches the words of a line, as `command`, and reaches the server as the line asks. -/
structure FollowsLine (line : String) (plan : ActivationPlan) (command : ServerCommand) : Prop where
  /-- The words of the line are launched, in the client's own directory. -/
  launches : plan.command = some command ∧
    (Text.pieces line.toList).map String.ofList = command.program :: command.args ∧
    command.workingDir = none
  /-- The server is reached over a loopback socket exactly if the first port flag has a readable
  value, and that is the port. -/
  socket : ∀ port : UInt16,
    plan.transport = .socket "127.0.0.1" port ∧ command.stdio = .detached ↔
      ∃ value, FirstPort command.args value ∧ Text.IsNumeral value.toList port.toNat
  /-- In all other cases it is reached over its own streams. -/
  streams : plan.transport = .stdio command.program command.args ∧ command.stdio = .piped ↔
    ∀ value, FirstPort command.args value →
      ∀ port : UInt16, ¬ Text.IsNumeral value.toList port.toNat
  filter : plan.filter = {}
  /-- The line that the plan shows is as good as the one that it was made from. -/
  again : ofCommandLine command.text = .ok plan

theorem parse_text_of_parse (h : ServerCommand.parse line = .ok c) (stdio : StdioPolicy) :
    ServerCommand.parse { c with stdio }.text = .ok c := by
  obtain ⟨hwords, hdir, hstdio⟩ := ServerCommand.parse_eq_ok_iff.mp h
  have hword : ∀ w ∈ c.program :: c.args, Text.IsWord w := by
    intro w hw
    rw [← hwords] at hw
    exact Text.isWord_of_mem_wordsOf hw
  obtain ⟨hprogram, hargs⟩ := List.forall_mem_cons.mp hword
  obtain ⟨program, args, workingDir, policy⟩ := c
  obtain rfl : workingDir = none := hdir
  obtain rfl : policy = .detached := hstdio
  exact ServerCommand.parse_text hprogram hargs

theorem followsLine_of_parse (h : ServerCommand.parse line = .ok c) :
    FollowsLine line (managed c c.reachedOver)
      { c with stdio := stdioFor c.reachedOver.kind } := by
  obtain ⟨hwords, hdir, -⟩ := ServerCommand.parse_eq_ok_iff.mp h
  refine ⟨⟨rfl, ?_, hdir⟩, fun port => ?_, ?_, rfl, ?_⟩
  · rw [← Text.wordsOf_eq, hwords]
  · rw [← ServerCommand.portIn_eq_some_iff]
    change c.reachedOver = _ ∧ _ ↔ c.portArgument = some port
    rw [ServerCommand.reachedOver_eq_socket_iff]
    refine ⟨And.left, fun hport => ⟨hport, ?_⟩⟩
    rw [ServerCommand.reachedOver_eq_socket_iff.mpr hport]
    rfl
  · have hnone : c.portArgument = none ↔ ∀ value, FirstPort c.args value →
        ∀ port : UInt16, ¬ Text.IsNumeral value.toList port.toNat := by
      rw [Option.eq_none_iff_forall_ne_some]
      refine ⟨fun hne value hfirst port hport => ?_, fun hall port hport => ?_⟩
      · exact hne port (ServerCommand.portIn_eq_some_iff.mpr ⟨value, hfirst, hport⟩)
      · obtain ⟨value, hfirst, hnumeral⟩ := ServerCommand.portIn_eq_some_iff.mp hport
        exact hall value hfirst port hnumeral
    rw [← hnone]
    change c.reachedOver = _ ∧ _ ↔ _
    rw [ServerCommand.reachedOver_eq_stdio_iff]
    refine ⟨And.left, fun hport => ⟨hport, ?_⟩⟩
    rw [ServerCommand.reachedOver_eq_stdio_iff.mpr hport]
    rfl
  · exact ofCommandLine_of_parse (parse_text_of_parse h _)

/-- A line gives a plan exactly if there is something in it that is no blank. The plan follows the
line, and the line that the plan shows gives the same plan. -/
theorem command_line_plans_are_stable (line : String) :
    (∀ e, ofCommandLine line = .error e ↔
      e = .launch .emptyCommand ∧ ∀ c ∈ line.toList, Text.isBlank c = true) ∧
    ((∃ plan, ofCommandLine line = .ok plan) ↔ ∃ c ∈ line.toList, Text.isBlank c = false) ∧
    ∀ plan, ofCommandLine line = .ok plan → ∃ command, plan.FollowsLine line command := by
  refine ⟨fun e => ofCommandLine_eq_error_iff, ?_, fun plan hplan => ?_⟩
  · cases hplan : ofCommandLine line with
    | ok plan =>
      have hsome : ¬ ∀ c ∈ line.toList, Text.isBlank c = true := fun hblank => by
        cases hplan.symm.trans (ofCommandLine_eq_error_iff.mpr ⟨rfl, hblank⟩)
      simpa using hsome
    | error e =>
      have hblank := (ofCommandLine_eq_error_iff.mp hplan).2
      simpa using hblank
  · cases hparse : ServerCommand.parse line with
    | ok c =>
      obtain rfl := Except.ok.inj (hplan.symm.trans (ofCommandLine_of_parse hparse))
      exact ⟨_, followsLine_of_parse hparse⟩
    | error cause =>
      rw [ofCommandLine, hparse] at hplan
      cases hplan

/-- The first of three port flags has no readable value, and takes the second for it. -/
theorem command_line_plan_of_swallowed_flag :
    let plan : ActivationPlan :=
      { command := some { program := "srv", args := ["-p", "-p=80", "--port=81"], stdio := .piped }
        transport := .stdio "srv" ["-p", "-p=80", "--port=81"] }
    ofCommandLine " srv -p\t-p=80\n--port=81" = .ok plan ∧
      ∃ command, plan.FollowsLine " srv -p\t-p=80\n--port=81" command := by
  intro plan
  have hplan : ofCommandLine " srv -p\t-p=80\n--port=81" = .ok plan := by decide +kernel
  exact ⟨hplan, (command_line_plans_are_stable _).2.2 plan hplan⟩

/-! ## Settings -/

theorem isWord_portFlag (port : UInt16) : Text.IsWord ("-p=" ++ Settings.portText port) := by
  refine ⟨fun hempty => ?_, fun c hc => ?_⟩
  · simpa using congrArg String.toList hempty
  · rw [String.toList_append, List.mem_append] at hc
    rcases hc with hc | hc
    · have hfront : ("-p=".toList.all fun c => !Text.isBlank c) = true := by decide +kernel
      exact (Bool.not_eq_true' _).mp (List.all_eq_true.mp hfront c hc)
    · rw [Settings.portText, String.toList_ofList] at hc
      exact Text.isBlank_of_isDigit (Text.isDigit_of_mem_numeral hc)

theorem readPort_portText (port : UInt16) :
    ServerCommand.readPort (Settings.portText port).toList = some port := by
  have hlt := port.toNat_lt
  have hread : Text.readNumeral Text.maxWord16 (Text.numeral port.toNat) = some port.toNat :=
    Text.readNumeral_numeral (by rw [Text.maxWord16]; omega)
  rw [ServerCommand.readPort, Settings.portText, String.toList_ofList, hread, Option.map_some,
    UInt16.ofNat_toNat]

/-- The words of a configured command that has no port flag of its own. -/
structure Unflagged (s : Settings) (program : String) (words : List String) : Prop where
  socket : s.transport = .socket
  split : Text.wordsOf s.serverCommand = program :: words
  free : ∀ w ∈ words, ¬ NamesPort w

namespace Unflagged

variable {s : Settings} {program : String} {words : List String}

theorem serverArgs (h : Unflagged s program words) :
    s.serverArgs = ["lsp", "-p=" ++ Settings.portText s.port] := by
  rw [Settings.serverArgs, h.socket]
  rfl

theorem portIn_eq (h : Unflagged s program words) :
    ServerCommand.portIn (words ++ s.serverArgs) = some s.port := by
  have hlsp : ∀ w ∈ ["lsp"], ¬ NamesPort w := by
    intro w hw
    obtain rfl := List.mem_singleton.mp hw
    simp [NamesPort, List.cons_prefix_cons]
  have hflag : PortFlag ["-p=" ++ Settings.portText s.port] (Settings.portText s.port) :=
    .joined (.inl rfl)
  rw [h.serverArgs, ServerCommand.portIn_append_of_not_namesPort h.free, ← List.singleton_append,
    ServerCommand.portIn_append_of_not_namesPort hlsp, hflag.portIn_eq, readPort_portText]

theorem parse_text (h : Unflagged s program words) (stdio : StdioPolicy) :
    ServerCommand.parse { program, args := words ++ s.serverArgs, stdio : ServerCommand }.text =
      .ok { program, args := words ++ s.serverArgs } := by
  have hword : ∀ w ∈ program :: words, Text.IsWord w := by
    intro w hw
    rw [← h.split] at hw
    exact Text.isWord_of_mem_wordsOf hw
  obtain ⟨hprogram, hwords⟩ := List.forall_mem_cons.mp hword
  refine ServerCommand.parse_text hprogram fun w hw => ?_
  rcases List.mem_append.mp hw with hw | hw
  · exact hwords w hw
  · rw [h.serverArgs] at hw
    rcases List.mem_cons.mp hw with rfl | hw
    · exact ⟨by decide, by simp [Text.isBlank]⟩
    · obtain rfl := List.mem_singleton.mp hw
      exact isWord_portFlag s.port

end Unflagged

/-- Settings and the line that their plan shows give the same plan, over a socket of the loopback host
and without another port flag. The line asks for the port that is dialled, whichever it is. -/
theorem settings_and_command_line_agree (s : Settings) (hmode : s.mode = .managed)
    (hsocket : s.transport = .socket) (hhost : s.host = Settings.default.host)
    (hvalid : s.validate = .ok ())
    (hfree : ∀ w ∈ (Text.wordsOf s.serverCommand).tail, ¬ NamesPort w) :
    (∃ plan command, ofSettings s = .ok plan ∧ plan.command = some command ∧
      ofCommandLine command.text = .ok plan ∧ plan.transport = .socket s.host s.port ∧
      command.portArgument = some s.port) ∧
    ∀ port, ∃ command, ServerCommand.ofSettings { s with port } = .ok command ∧
      command.portArgument = some port := by
  obtain ⟨program, words, hwords⟩ :=
    List.exists_cons_of_ne_nil ((Settings.validate_eq_ok_iff.mp hvalid).program hmode)
  rw [hwords, List.tail_cons] at hfree
  refine ⟨?_, fun port => ⟨_, ServerCommand.ofSettings_eq hwords,
    Unflagged.portIn_eq (s := { s with port }) ⟨hsocket, hwords, hfree⟩⟩⟩
  have hs : Unflagged s program words := ⟨hsocket, hwords, hfree⟩
  have hplan : ofSettings s = .ok (managed { program, args := words ++ s.serverArgs }
      (.socket s.host s.port)) := by
    simp only [ofSettings, hvalid, hmode, ServerCommand.ofSettings_eq hwords,
      ofSettings_socket hsocket]
  refine ⟨_, _, hplan, rfl, ?_, rfl, hs.portIn_eq⟩
  have hreached : ServerCommand.reachedOver { program, args := words ++ s.serverArgs } =
      .socket s.host s.port := by
    rw [hhost]
    exact ServerCommand.reachedOver_eq_socket_iff.mpr hs.portIn_eq
  rw [ofCommandLine_of_parse (hs.parse_text _), hreached]

/-- A wrapper with flags that only resemble port flags, and the highest port. -/
theorem settings_and_command_line_agree_wrapped :
    let s : Settings :=
      { serverCommand := "\u3000env\u00a0-port=1 --ports=2\n-P fireball", port := 65535 }
    let command : ServerCommand :=
      { program := "env", args := ["-port=1", "--ports=2", "-P", "fireball", "lsp", "-p=65535"] }
    let plan : ActivationPlan := { command := some command, transport := .socket "127.0.0.1" 65535 }
    ofSettings s = .ok plan ∧ command.text = "env -port=1 --ports=2 -P fireball lsp -p=65535" ∧
      ofCommandLine command.text = .ok plan ∧ command.portArgument = some 65535 := by
  intro s command plan
  have hplan : ofSettings s = .ok plan := by decide +kernel
  obtain ⟨plan', command', hplan', hcommand, hagree, -, hport⟩ :=
    (settings_and_command_line_agree s rfl rfl rfl (by decide +kernel) (by decide +kernel)).1
  obtain rfl := Except.ok.inj (hplan.symm.trans hplan')
  obtain rfl := Option.some.inj hcommand
  exact ⟨hplan, by decide +kernel, hagree, hport⟩

end ActivationPlan

end LanguageClient
