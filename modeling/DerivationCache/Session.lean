import DerivationCache.Machine
import DerivationCache.Script.Run

/-!
# Sessions

A session makes the steps of a script one after another in one world, each as a run of its
own, and reports on each. A panic ends the step in which it happens and nothing more. A
session is refused as a whole if one of its steps cannot be understood.

A step is an action that ends by stopping the run, after it has put its result into the
shared state. A run that stops without a result has met something it cannot understand.
-/

namespace DerivationCache

open Script

namespace Session

/-- A step of a session, with the name of the variable that keeps its result. -/
structure Line where
  step : Step
  name : Option String := none

/-- Why a session has no reports. -/
inductive Refusal where
  /-- A step cannot be understood. -/
  | nonsense
  /-- A step did not end within the given number of machine steps, or waits for itself. -/
  | endless
  deriving DecidableEq

/-- The machine steps that a step of a session may take. A step that takes more is taken for
one that never ends. -/
def stepLimit : Nat := 10000000

/-- A world without anything in it. -/
def empty : ScriptWorld := { client := {} }

/-- A machine that runs scripts. -/
abbrev ScriptMachine : Type := Machine Key Key Value State Builder

/-- What a line does at top level. -/
def Line.action (l : Line) : Action (Except RequestError Value) := do
  let locals := (← observe).client.bindings
  let (result, bindings) ← makeStep { site := {}, locals } l.step l.name
  modifyState fun s => { s with bindings, result := some result }
  .halt

/-- The sizes of the named caches. -/
def cacheSizes (w : ScriptWorld) : List (String × Nat × Nat) :=
  w.client.caches.toList.filterMap fun (name, c) =>
    (w.cache? c).map fun cache => (name, cache.store.size, cache.failures.size)

/-- The sizes of the named contexts. -/
def contextSizes (w : ScriptWorld) : List (String × Nat × Nat) :=
  w.client.contexts.toList.filterMap fun (name, x) =>
    (w.context? x).map fun context => (name, context.size, context.pendingSize)

/-- The report on a step that ended in this world. -/
def reportOn (w : ScriptWorld) (ending : Ending) : StepReport :=
  { ending
    log := w.client.log.reverse
    caches := cacheSizes w
    contexts := contextSizes w }

/-- Makes one step of the machine, and takes the key out of the error of a request whose pass was
refused with several keys in flight. -/
def advance (m : ScriptMachine) : Option ScriptMachine :=
  (m.step Builder.body).map fun after =>
    match m.focus, after.focus with
    | .reply x _ (.ok (some _)) (.pass _ _),
      .deliver c k (.returned (.error (.violation e))) receiver =>
      let inFlight := ((m.world.context? x).map (·.pendingSize)).getD 0
      let reported := reportedRefusal inFlight e
      after.goto (.deliver c k (.returned (.error (.violation reported))) receiver)
    | _, _ => after

/-- Advances until there is no step to make, at most as often as the fuel says. -/
def advanceAll : Nat → ScriptMachine → ScriptMachine
  | 0, m => m
  | fuel + 1, m =>
    match advance m with
    | none => m
    | some m => advanceAll fuel m

/-- Makes one line of a session. -/
def runLine (fuel : Nat) (w : ScriptWorld) (l : Line) : Except Refusal (StepReport × ScriptWorld) :=
  let w := { w with client := { w.client with log := [], result := none } }
  let m := advanceAll fuel (Machine.start w l.action)
  match m.status Builder.body with
  | .halted =>
    match m.world.client.result with
    | some r => .ok (reportOn m.world (.result r), m.world)
    | none => .error .nonsense
  | .panicked message => .ok (reportOn m.world (.panic message), m.world)
  | .returned _ => .error .nonsense
  | .running => .error .endless
  | .stuck => .error .endless

/-- Makes the lines of a session one after another. -/
def runFrom (fuel : Nat) : ScriptWorld → List Line → Except Refusal (List StepReport)
  | _, [] => .ok []
  | w, l :: rest => do
    let (r, w) ← runLine fuel w l
    return r :: (← runFrom fuel w rest)

/-- The reports of a session, each of whose steps may take the given number of machine
steps. -/
def run (fuel : Nat) (lines : List Line) : Except Refusal (List StepReport) :=
  runFrom fuel empty lines

end Session

end DerivationCache
