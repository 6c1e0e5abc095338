import LanguageClient.Machine.Builtin

/-!
# Programs that run

A program goes on when time passes or input arrives. Its processes take turns, one step each, until
every one of them waits for something or has ended. Then nothing happens before a sleeping process
wakes up.

Every program takes a moment to start, so a process is never seen to have ended right after it was
launched.
-/

namespace LanguageClient.Machine.Program

def startDelay : Nat := 1000000

/-- How many functions can be running inside each other. -/
def deepest : Nat := 1000

/-! ## Commands -/

/-- A part of a script gets a process of its own. How processes have ended that were waited for is
forgotten then. -/
def fork (p : Program) (t : Task) (channels : List (Nat × Channel)) (acts : List Act) :
    Nat × Program :=
  let (number, p) := p.fresh
  let child : Task := { t with
    number
    parent := t.number
    todo := acts
    shell := t.shell.forked
    channels
    pending := []
    isPart := true
    loopsAround := t.loops }
  let others := p.tasks.filter fun u => !(u.parent = t.number && u.waited)
  (number, { p with tasks := others ++ [child] })

def redirectTo (channels : List (Nat × Channel)) (n : Nat) (c : Option Channel) :
    List (Nat × Channel) :=
  let others := channels.filter (·.1 != n)
  match c with
  | some c => (n, c) :: others
  | none => others

def redirect (p : Program) (t : Task) (n : Nat) (opening : Opening) (target : List Char) :
    Option (Program × Task) :=
  match opening with
  | .duplicate =>
    match target with
    | ['-'] => some (p, t.setChannel n none)
    | [c] =>
      (Text.digitValue c).bind fun m => (t.channel m).map fun c => (p, t.setChannel n (some c))
    | _ => none
  | _ => (p.openFile t opening target).map fun (c, p) => (p, t.setChannel n (some c))

def redirectAll (p : Program) (t : Task) :
    List (Nat × Opening × List Char) → Option (Program × Task × List (Nat × Option Channel))
  | [] => some (p, t, [])
  | (n, opening, target) :: rest =>
    (redirect p t n opening target).bind fun (q, u) =>
      (redirectAll q u rest).map fun (q, u, saved) => (q, u, saved ++ [(n, t.channel n)])

def targets (d : Draft) :
    List Redirection → Except Stop (List (Nat × Opening × List Char) × Draft)
  | [] => .ok ([], d)
  | .mk channel opening target :: rest => do
    let (text, d) ← Expansion.text d target
    let isNumber := match text with
      | [c] => c.isDigit || c = '-'
      | _ => false
    if opening = .duplicate && !isNumber then .error .fault
    else
      let (more, d) ← targets d rest
      .ok ((channel, opening, text) :: more, d)

/-- Something has to be known before a command can be run: it is asked for. -/
def ask (p : Program) (t : Task) (c : Command) (again : Act) : Program :=
  let (pipe, p) := p.makePipe
  let (number, p) := p.fork t (redirectTo t.channels 1 (some (.pipe false pipe))) [.run false c []]
  p.put (t.push [.gather pipe number [], again])

def stopped (p : Program) (t : Task) (again : Act) : Stop → Program
  | .needs c => p.ask t c again
  | .fault => p.put t.fail

/-- Ends the script if the next command fails, where that is the rule. -/
def checked (t : Task) (tested : Bool) : Task :=
  if t.shell.has 'e' && !tested then t.push [.check] else t

/-- Runs another program: in place of a part of a script that has nothing else to do, or in a
process of its own. `channels` are the ones that it gets. -/
def runProgram (p : Program) (t : Task) (channels : List (Nat × Channel)) (words : List (List Char))
    (environment : List (List Char × List Char)) : Program :=
  let hasTraps := t.shell.traps.any fun (_, action) => !action.isEmpty
  if t.isPart && t.todo.isEmpty && !hasTraps then
    p.put { t with channels, todo := [.execute words environment] }
  else
    let (number, p) := p.fork t channels [.execute words environment]
    p.put (t.push [.await [number]])

def assignAll (s : Shell) (pairs : List (List Char × List Char)) :
    Shell × List (List Char × Option (List Char)) :=
  (pairs.foldl (fun s (name, value) => { s with bindings := Shell.bind s.bindings name value }) s,
    pairs.map fun (name, _) => (name, s.bindings.lookup name))

/-- Runs a command whose words, assignments and redirections are worked out. -/
def runWords (p : Program) (t : Task) (tested : Bool) (words : List (List Char))
    (pairs : List (List Char × List Char)) (redirections : List (Nat × Opening × List Char)) :
    Program :=
  let plain := words.dropWhile fun w => w = octetsOf "command"
  let isCommand := plain.length < words.length &&
    !(plain.head?.any fun w => w.head? = some '-') && !plain.isEmpty
  let words := if isCommand then plain else words
  match redirectAll p t redirections with
  | none =>
    let isSpecial :=
      !isCommand && words.head?.any fun w => Builtin.special.contains (textOfOctets w)
    p.put (if isSpecial then t.fail else t.done 2)
  | some (p, redirected, saved) =>
    match words with
    | [] =>
      p.put ({ t with shell := (assignAll t.shell pairs).1 })
    | name :: args =>
      let text := textOfOctets name
      let back := if saved.isEmpty then [] else [Act.restore saved]
      if text = "exec" && !isCommand then
        let shell := (assignAll t.shell pairs).1
        match args.dropWhile (· = ['-', '-']) with
        | [] => p.put ({ redirected with shell }.done 0)
        | words => p.put { redirected with shell, todo := [.execute words shell.environment] }
      else if Builtin.special.contains text then
        let t := { redirected with shell := (assignAll t.shell pairs).1 }.push back
        Builtin.carryOut p t tested text args
      else
        match if isCommand then none else t.shell.functions.lookup name with
        | some body =>
          if deepest ≤ t.shell.frames.length then p.put t.fail
          else
            let (shell, bindings) := assignAll t.shell pairs
            let t := { redirected with shell := { shell with
              arguments := args
              frames := [] :: shell.frames } }
            p.put (t.push ([.run tested body [], .endFunction shell.arguments] ++
              (if bindings.isEmpty then [] else [Act.rebind bindings]) ++ back))
        | none =>
          if Builtin.regular.contains text then
            let (shell, bindings) := assignAll t.shell pairs
            let t := { redirected with shell }.push
              ((if bindings.isEmpty then [] else [Act.rebind bindings]) ++ back)
            Builtin.carryOut p t tested text args
          else
            let environment := pairs.foldl (fun e (name, value) => Shell.bind e name value)
              t.shell.environment
            p.runProgram t redirected.channels words environment

/-- The commands of a pipeline, each in a process of its own; `source` is the pipe that the next one
reads from. -/
def startPipeline (t : Task) (tested : Bool) :
    Program → Option Nat → List Command → Program × List Nat
  | p, _, [] => (p, [])
  | p, source, c :: rest =>
    let channels := match source with
      | some pipe => redirectTo t.channels 0 (some (.pipe true pipe))
      | none => t.channels
    match rest with
    | [] =>
      let (number, p) := p.fork t channels [.run tested c []]
      (p, [number])
    | _ =>
      let (pipe, p) := p.makePipe
      let channels := redirectTo channels 1 (some (.pipe false pipe))
      let (number, p) := p.fork t channels [.run tested c []]
      let (p, numbers) := startPipeline t tested p (some pipe) rest
      (p, number :: numbers)

def matching (text : List Char) (d : Draft) :
    List (List (List WordPart) × Command) → Except Stop (Option Command × Draft)
  | [] => .ok (none, d)
  | (patterns, body) :: rest => do
    let (found, d) ← patterns.foldlM (fun ((found, d) : Bool × Draft) word => do
      if found then .ok (true, d)
      else
        let (pattern, d) ← Expansion.pattern d word
        .ok (fits pattern text, d)) (false, d)
    if found then .ok (some body, d) else matching text d rest

def runCommand (p : Program) (t : Task) (tested : Bool) (c : Command) (answers : List Captured) :
    Program :=
  let again : Act := .run tested c answers
  let d : Draft := { shell := t.shell, answers }
  if t.shell.has 'n' then p.put t
  else match c with
  | .nothing => p.put t
  | .sequence a b => p.put (t.push [.run tested a [], .run tested b []])
  | .both a b => p.put (t.push [.run true a [], .after tested true b])
  | .either a b => p.put (t.push [.run true a [], .after tested false b])
  | .negation c => p.put (t.push [.run true c [], .negate])
  | .branch test yes no => p.put (t.push [.run true test [], .choose tested yes no])
  | .loop whilst test body => p.put (t.push [.test tested whilst test body true])
  | .function name body =>
    p.put ({ t with shell := { t.shell with
      functions := (name, body) :: t.shell.functions.filter (·.1 != name) } }.done 0)
  | .background c =>
    let (number, p) := p.fork { t with ignored := 2 :: 3 :: t.ignored }
      (redirectTo t.channels 0 (some .nothing))
      [.sleepUntil (p.now + startDelay), .run false c []]
    p.put ({ t with shell := { t.shell with lastBackground := some number } }.done 0)
  | .subshell c =>
    let hasTraps := t.shell.traps.any fun (_, action) => !action.isEmpty
    if t.isPart && t.todo.isEmpty && !hasTraps then p.put (t.push [.run tested c []])
    else
      let (number, p) := p.fork t t.channels [.run tested c []]
      p.put ((checked t tested).push [.await [number]])
  | .pipeline cs =>
    let (p, numbers) := startPipeline t tested p none cs
    p.put ((checked t tested).push [.await numbers])
  | .redirected c rs =>
    match targets d rs with
    | .error stop => p.stopped t again stop
    | .ok (redirections, d) =>
      let t := { t with shell := d.shell }
      match redirectAll p t redirections with
      | none => p.put (t.done 2)
      | some (p, t, saved) => p.put (t.push [.run tested c [], .restore saved])
  | .each name words body =>
    match words with
    | none => p.put (t.push [.each tested name t.shell.arguments body true])
    | some words =>
      match Expansion.words d words with
      | .error stop => p.stopped t again stop
      | .ok (values, d) =>
        p.put ({ t with shell := d.shell }.push [.each tested name values body true])
  | .select word cases =>
    let found := do
      let (text, d) ← Expansion.text d word
      matching text d cases
    match found with
    | .error stop => p.stopped t again stop
    | .ok (none, d) => p.put ({ t with shell := d.shell }.done 0)
    | .ok (some .nothing, d) => p.put ({ t with shell := d.shell }.done 0)
    | .ok (some body, d) => p.put ({ t with shell := d.shell }.push [.run tested body []])
  | .simple assignments words redirections =>
    let found := do
      let (words, d) ← Expansion.words d words
      let (redirections, d) ← targets d redirections
      let before := d.shell
      let (pairs, d) ← Expansion.assignments d assignments
      .ok (words, redirections, pairs, before, d)
    match found with
    | .error stop => p.stopped t again stop
    | .ok (words, redirections, pairs, before, d) =>
      let t := checked { t with shell := before } tested
      let t := if words.isEmpty then { t with shell := d.shell }.done (d.lastAnswer.getD 0) else t
      p.runWords t tested words pairs redirections

/-! ## Steps -/

/-- The status of a process that could not become a program: it makes a difference whether a path
led to something else. -/
def failure (name : List Char) : Located → Nat
  | .notAllowed => if name.contains '/' then 126 else 127
  | _ => 127

def execute (p : Program) (t : Task) (words : List (List Char))
    (environment : List (List Char × List Char)) : Task :=
  match words with
  | [] => t.finish (.exited 0)
  | name :: args =>
    match Utility.locate p.tree t.directory (Utility.pathOf environment) (textOfOctets name) with
    | .program program => Utility.become p t program name args environment
    | other => { t with todo := [] }.exit (failure name other)

def copy (p : Program) (t : Task) (status : Nat) : List (List Char) → Option Program
  | [] => some (p.put (t.done status))
  | source :: rest =>
    let again : Act := .copy (source :: rest) status
    if (t.channel 1).isNone then some (p.put (t.done 1))
    else if source = ['-'] then
      match p.supply (t.channel 0) with
      | .waiting => none
      | .ended => some (p.put (t.push [.copy rest status]))
      | .refused => some (p.put (t.push [.copy rest 1]))
      | .octets cs =>
        some ((p.consume (t.channel 0) cs.length).put (t.push [.write cs status, again]))
    else
      match p.find t source with
      | .file canonical =>
        let text :=
          if (device? t canonical).isSome then [] else (p.contents.lookup canonical).getD []
        some (p.put (t.push [.write text status, .copy rest status]))
      | _ => some (p.put (t.push [.copy rest 1]))

def readLine (p : Program) (t : Task) (raw : Bool) (names : List (List Char)) : Option Program :=
  let channel := t.channel 0
  match p.supply channel with
  | .refused | .ended => some (p.put (Builtin.assignLine t names [] 1))
  | .waiting => none
  | .octets cs =>
    match Builtin.takeLine raw false (cs.length + 1) cs with
    | some (line, count) =>
      some ((p.consume channel count).put (Builtin.assignLine t names line 0))
    | none =>
      let rest := p.consume channel cs.length
      match rest.supply channel with
      | .waiting => none
      | _ =>
        (Builtin.takeLine raw true (cs.length + 1) cs).map fun (line, _) =>
          rest.put (Builtin.assignLine t names line 1)

def interpretInput (p : Program) (t : Task) (text : List Char) : Option Program :=
  let more : Option Program := match p.supply (t.channel 0) with
    | .octets cs =>
      some ((p.consume (t.channel 0) cs.length).put (t.push [.interpretInput (text ++ cs)]))
    | .waiting => none
    | _ => some (p.put (if text.isEmpty then t else t.push [.interpret false text]))
  if text.isEmpty then more
  else
    match Script.readLine text with
    | .ok (c, some rest) => some (p.put (t.push [.run false c [], .interpretInput rest]))
    | .ok (_, none) => more
    | .error .unfinished => more
    | .error .unexpected => some (p.put t.fail)

def answerText (cs : List Char) : List Char :=
  ((cs.filter fun c => c != Char.ofNat 0).reverse.dropWhile (· = '\n')).reverse

def withAnswer (a : Captured) : List Act → List Act
  | .run tested c answers :: rest => .run tested c (answers ++ [a]) :: rest
  | acts => acts

def gather (p : Program) (t : Task) (pipe number : Nat) (text : List Char) : Option Program :=
  match p.supply (some (.pipe true pipe)) with
  | .octets cs =>
    some ((p.consume (some (.pipe true pipe)) cs.length).put
      (t.push [.gather pipe number (text ++ cs)]))
  | .waiting => none
  | _ =>
    (p.statuses [number]).map fun statuses =>
      let a : Captured := { text := answerText text, status := statuses.headD 0 }
      (p.forget [number]).put { t with todo := withAnswer a t.todo }

def markWaited (p : Program) (numbers : List Nat) : Program :=
  { p with tasks := p.tasks.map fun t =>
      if numbers.contains t.number then { t with waited := true } else t }

def awaitStarted (p : Program) (t : Task) (numbers : Option (List Nat)) : Option Program :=
  let children := (p.tasks.filter (·.parent = t.number)).map (·.number)
  let wanted := numbers.getD children
  let known := wanted.filter children.contains
  (p.statuses known).map fun _ =>
    let status := match numbers.bind List.getLast? with
      | some n => if known.contains n then ((p.statuses [n]).getD []).headD 127 else 127
      | none => 0
    (p.markWaited known).put (t.done status)

def act (p : Program) (t : Task) (a : Act) : Option Program :=
  let on (t : Task) : Option Program := some (p.put t)
  match a with
  | .interpret tested text =>
    match Script.readLine text with
    | .error _ => on t.fail
    | .ok (c, none) => on (t.push [.run tested c []])
    | .ok (c, some rest) => on (t.push [.run tested c [], .interpret tested rest])
  | .interpretInput text => p.interpretInput t text
  | .run tested c answers => some (p.runCommand t tested c answers)
  | .after tested success c =>
    on (if (t.shell.status == 0) == success then t.push [.run tested c []] else t)
  | .choose tested yes no =>
    let branch := if t.shell.status = 0 then yes else no
    match branch with
    | .nothing => on (t.done 0)
    | c => on (t.push [.run tested c []])
  | .test tested whilst condition body first =>
    let last := if first then 0 else t.shell.status
    on (t.push [.run true condition [], .round tested whilst condition body last])
  | .round tested whilst condition body last =>
    if (t.shell.status == 0) == whilst then
      on (t.push [.run tested body [], .test tested whilst condition body false])
    else on (t.done last)
  | .each tested name values body first =>
    match values with
    | [] => on (if first then t.done 0 else t)
    | value :: rest =>
      on ({ t with shell := t.shell.set name value }.push
        [.run tested body [], .each tested name rest body false])
  | .negate => on (t.done (if t.shell.status = 0 then 1 else 0))
  | .check => on (if t.shell.status = 0 then t else t.exit t.shell.status)
  | .restore channels => on (t.restore channels)
  | .rebind bindings => on (t.rebind bindings)
  | .endFunction arguments =>
    on { t with shell := { t.shell.leaveFrame with arguments } }
  | .endSource => on t
  | .endTrap status before => on { t with shell := { t.shell with status, before } }
  | .await numbers =>
    (p.statuses numbers).map fun statuses =>
      (p.forget numbers).put (t.done (statuses.getLastD 0))
  | .awaitStarted numbers => p.awaitStarted t numbers
  | .gather pipe number text => p.gather t pipe number text
  | .write octets status =>
    if octets.isEmpty then on (t.done status)
    else
      match p.deliver (t.channel 1) octets with
      | .done p => some (p.put (t.done status))
      | .full => none
      | .refused => on (t.done 1)
      | .broken =>
        if t.ignored.contains Signals.brokenPipe then on (t.done 1)
        else on (strike (t.done 1) Signals.brokenPipe)
  | .copy sources status => p.copy t status sources
  | .readLine raw names => p.readLine t raw names
  | .sleepUntil moment => if moment ≤ p.now then on t else none
  | .execute words environment => on (p.execute t words environment)
  | .quit => on (t.finish (.exited (t.shell.before.getD t.shell.status % 256)))

/-- A process that waits for something in vain does what has to be done about a signal, if waiting
can be cut short. -/
def interrupt (p : Program) (t : Task) (n : Nat) (pending : List Nat) : Option Program :=
  match t.todo with
  | .awaitStarted _ :: rest =>
    some (p.put ({ t with todo := rest, pending }.done (128 + n) |>.takeSignal n))
  | .readLine .. :: _ | .interpretInput _ :: _ => some (p.put ({ t with pending }.takeSignal n))
  | _ => none

/-- Whether what a process does next belongs to a command that has begun, so that signals have to
wait until it is over. -/
def isBrief : Act → Bool
  | .await _ | .gather .. | .write .. | .copy .. | .sleepUntil _ | .readLine .. | .awaitStarted _
  | .interpretInput _ | .restore _ | .rebind _ | .execute .. | .quit | .check => true
  | _ => false

def stepTask (p : Program) (t : Task) : Option Program :=
  if t.ended.isSome || t.paused then none
  else
    match t.pending, t.todo with
    | n :: pending, [] => some (p.put ({ t with pending }.takeSignal n))
    | [], [] => some (p.put (t.exit (t.shell.before.getD t.shell.status)))
    | [], a :: rest => p.act { t with todo := rest } a
    | n :: pending, a :: rest =>
      if isBrief a then (p.act { t with todo := rest } a).or (p.interrupt t n pending)
      else some (p.put ({ t with pending }.takeSignal n))

def step (p : Program) : Option Program :=
  let (p, moved) := p.tasks.foldl (fun ((p, moved) : Program × Bool) t =>
    match (p.task? t.number).bind p.stepTask with
    | some q => (q, true)
    | none => (p, moved)) (p, false)
  if moved then some p else none

def settle : Nat → Program → Program
  | 0, p => p
  | fuel + 1, p =>
    match p.step with
    | some p => settle fuel p
    | none => p

def steps : Nat := 300000

/-! ## Time -/

def wakeOf (t : Task) : Option Nat :=
  match t.ended, t.paused, t.todo with
  | none, false, .sleepUntil moment :: _ => some moment
  | _, _, _ => none

def nextWake (p : Program) : Option Nat := (p.tasks.filterMap wakeOf).min?

/-- How often something happens before a rehearsal loses patience. -/
def moments : Nat := 10000

/-- Lets time pass until `target`, or until `stop` holds. -/
def passUntil (stop : Program → Bool) (target : Nat) : Nat → Program → Program
  | 0, p => p
  | fuel + 1, p =>
    let p := settle steps p
    if stop p then p
    else
      match p.nextWake with
      | none => { p with now := max p.now target }
      | some wake =>
        if wake ≤ target then passUntil stop target fuel { p with now := max p.now wake }
        else { p with now := max p.now target }

def waitFor (p : Program) (stop : Program → Bool) : Program :=
  passUntil stop (p.now + Utility.horizon) moments p

/-- When and how the launched process ends if nobody interferes. -/
def ownEnd (p : Program) : Option (Nat × WaitStatus) :=
  let after := p.waitFor hasEnded
  after.ended.map fun status => (after.now, status)

def askedToEnd (p : Program) : Program := (p.send launched Signals.terminate).getD p

def killed (p : Program) : Program := (p.send launched Signals.kill).getD p

def child (p : Program) : Child :=
  match p.ended with
  | some status => { now := p.now, ownEnd := some (p.now, status) }
  | none => { now := p.now, ownEnd := p.ownEnd }

/-- The launched process as its parent sees it that is about to ask it to end. -/
def childAskedToEnd (p : Program) : Child :=
  match p.ended with
  | some status => { now := p.now, ownEnd := some (p.now, status) }
  | none =>
    { now := p.now
      onTerminate := p.askedToEnd.ownEnd.map fun (t, status) => (t - p.now, status) }

/-! ## From outside -/

def outputEnded (p : Program) : Bool := !p.isHeld .output

def inputRefused (p : Program) : Bool := !p.isHeld .input

def give (p : Program) (bytes : List UInt8) : Program :=
  { p with input := p.input.add (bytes.map fun b => Char.ofNat b.toNat) }

def take (p : Program) (count : Nat) : List UInt8 × Program :=
  ((p.output.octets.take count).map fun c => UInt8.ofNat c.toNat,
    { p with output := p.output.drop count })

def ofActs (acts : List Act) : Program :=
  { tasks := [{ number := launched, parent := client, todo := .sleepUntil startDelay :: acts }] }

end LanguageClient.Machine.Program
