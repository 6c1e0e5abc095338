import LanguageClient.Activation.Controller

/-!
# One activation from beginning to end

A client makes its calls on a controller one after the other. Whatever the controller asks for is
done by a `Workshop`, which has a state of its own and tells about its work. The log of a cycle is
one sequence: what the controller and the workshop tell about, in the order in which it happened.
-/

namespace LanguageClient.Client

open Activation (Ask Answer Controller Request)

/-- Whoever does what a controller asks for. `σ` is what has been made so far. -/
structure Workshop (σ : Type) where
  serve : σ → Nat → Request → Answer × List Log.Event × σ
  /-- Goes on by itself until the client is interrupted. -/
  idle : σ → List Log.Event × σ := fun made => ([], made)

structure Cycle (σ : Type) where
  controller : Controller := {}
  made : σ
  log : List Log.Event := []
  nextCall : Nat := 1

namespace Cycle

variable {σ : Type}

def tell (c : Cycle σ) (events : List Log.Event) : Cycle σ := { c with log := c.log ++ events }

def setController (c : Cycle σ) (next : Controller) : Cycle σ :=
  { c with controller := { next with log := [] } }.tell next.log

/-- One step on behalf of a call: the controller moves, or the workshop answers it. -/
def step (shop : Workshop σ) (n : Nat) (c : Cycle σ) : Option (Cycle σ) :=
  match c.controller.requestOf n with
  | some request =>
    let (answer, events, made) := shop.serve c.made n request
    let served : Cycle σ := { c with made }
    some ((served.tell events).setController (c.controller.answer n answer))
  | none => (c.controller.step n).map c.setController

def finish (shop : Workshop σ) (n : Nat) : Nat → Cycle σ → Cycle σ
  | 0, c => c
  | fuel + 1, c =>
    match c.step shop n with
    | some c => finish shop n fuel c
    | none => c

def await (shop : Workshop σ) (c : Cycle σ) : Cycle σ :=
  let (events, made) := shop.idle c.made
  { c with made }.tell events

/-- More steps than any call takes: it queues, begins, and waits for at most five answers. -/
def callSteps : Nat := 16

def call (shop : Workshop σ) (ask : Ask) (c : Cycle σ) : Option Activation.Outcome × Cycle σ :=
  let n := c.nextCall
  let begun : Cycle σ :=
    { c with controller := c.controller.apply (.call n ask), nextCall := n + 1 }
  let c := finish shop n callSteps begun
  (c.controller.outcomeOf n, c)

end Cycle

def event (level : Log.Level) (message : String) (fields : List (String × Log.Value)) : Log.Event :=
  { level, target := .program, message, fields }

def windDown {σ : Type} (shop : Workshop σ) (c : Cycle σ) : Cycle σ :=
  match c.call shop .deactivateIfBusy with
  | (some (.deactivated report), c) =>
    if report.isClean then c
    else c.tell [event .warn "teardown completed with problems" [("outcome", .shown report.text)]]
  | (_, c) => c

/-- Activates a client, and winds it down as soon as it is interrupted: whether it was activated,
and what became of everything. -/
def activationCycle {σ : Type} (shop : Workshop σ) (made : σ) (settings : Settings) :
    Bool × Cycle σ :=
  let fresh : Cycle σ := { made }
  let begun := fresh.tell
    [event .info "starting language client" [("config", .shown settings.summary)]]
  match begun.call shop (.activateWith settings) with
  | (some (.refused e), c) =>
    (false, c.tell [event .error "activation failed" [("error", .shown e.message)]])
  | (_, c) => (true, windDown shop (c.await shop))

end LanguageClient.Client
