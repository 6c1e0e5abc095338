/-!
# One task at a time, first come first served

A system of tasks that only ever block on each other or on the clock can be played out without a
clock and without threads. Whoever can go on goes on until it is blocked; whoever is enabled by that
queues up behind those who are waiting already; when nobody can go on the clock jumps to the next
moment at which somebody wants to look again.

The system itself is given by what its tasks are, what happens when one is given the chance to go
on, and when it wants to be looked at again. Nothing here knows what the tasks do.
-/

namespace LanguageClient.Schedule

structure System (σ τ : Type) where
  /-- The tasks there are, in the order in which they came into being. -/
  tasks : σ → List τ
  /-- A task goes on as far as it can in one go, or is blocked. -/
  go : σ → τ → Option σ
  now : σ → Nat
  setNow : σ → Nat → σ
  nextWake : σ → Option Nat

variable {σ τ : Type} [DecidableEq τ]

def System.enabled (sys : System σ τ) (s : σ) (queue : List τ) : List τ :=
  (sys.tasks s).filter fun t => !queue.contains t && (sys.go s t).isSome

/-- Lets the queued tasks go on in turn, each until it is blocked, for at most `fuel` rounds. -/
def System.drainQueue (sys : System σ τ) : Nat → List τ → σ → σ
  | 0, _, s => s
  | _, [], s => s
  | fuel + 1, t :: queue, s =>
    match sys.go s t with
    | none => sys.drainQueue fuel queue s
    | some s =>
      let queue := t :: queue
      sys.drainQueue fuel (queue ++ sys.enabled s queue) s

def rounds : Nat := 1000000

def System.settle (sys : System σ τ) (s : σ) : σ := sys.drainQueue rounds (sys.enabled s []) s

/-- Lets time pass until `target`, stopping wherever a task wants to look again; `observe` is shown
the system each time it has settled. -/
def System.passUntil (sys : System σ τ) (observe : σ → σ) (target : Nat) : Nat → σ → σ
  | 0, s => sys.setNow s target
  | fuel + 1, s =>
    match sys.nextWake s with
    | none => sys.setNow s target
    | some wake =>
      if wake ≤ target then
        sys.passUntil observe target fuel (observe (sys.settle (sys.setNow s wake)))
      else sys.setNow s target

def System.pass (sys : System σ τ) (observe : σ → σ) (nanos : Nat) (s : σ) : σ :=
  sys.passUntil observe (sys.now s + nanos) rounds s

end LanguageClient.Schedule
