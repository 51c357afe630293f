import DerivationCache.Proofs.Transition

/-!
# Executions

An `Execution` is a finite run of a system with any start states and any step relation. Three
step relations between machines are used here.

* `Machine.Follows`: one machine makes its steps, and starts the next line of a session whenever
  there is no step to make.
* `Machine.FollowsAmong`: besides, any other machine in the same world may make a step at any
  time, as long as it leaves alone the contexts of the calls in progress.
* `Machine.Interleaves`: at every step any machine of the world may be the one that makes it.

## Main results

* `Execution.invariant`, `Execution.lasts`: what every step preserves holds in every state, or
  from one state on.
* `Machine.runExecution`: the states that `Machine.run` goes through are an execution.
-/

namespace DerivationCache

/-- A run of a system, state by state. The states after the first `length + 1` are of no
concern. -/
structure Execution {S : Type} (init : S → Prop) (next : S → S → Prop) where
  length : Nat
  state : Nat → S
  starts : init (state 0)
  goes : ∀ i < length, next (state i) (state (i + 1))

namespace Execution

variable {S : Type} {init : S → Prop} {next : S → S → Prop}

/-- What holds in one state and is preserved by every later step holds in every later state. -/
theorem lasts (e : Execution init next) {P : S → Prop} {i j : Nat} (hij : i ≤ j)
    (hP : P (e.state i))
    (hstep : ∀ n, i ≤ n → n < j → P (e.state n) → P (e.state (n + 1))) : P (e.state j) := by
  induction hij with
  | refl => exact hP
  | @step j hij ih =>
      exact hstep j hij (Nat.lt_succ_self j)
        (ih fun n hin hnj => hstep n hin (Nat.lt_succ_of_lt hnj))

/-- What holds at the start and is preserved by every step holds in every state. -/
theorem invariant (e : Execution init next) {I : S → Prop} (hinit : ∀ s, init s → I s)
    (hnext : ∀ s s', next s s' → I s → I s') {i : Nat} (hi : i ≤ e.length) : I (e.state i) :=
  e.lasts (Nat.zero_le i) (hinit _ e.starts) fun n _ hn =>
    hnext _ _ (e.goes n (Nat.lt_of_lt_of_le hn hi))

end Execution

variable {K N V σ B : Type} [DecidableEq K] [DecidableEq N] [BEq V] [ToString K]

namespace Machine

section

variable (body : B → ContextId → K → Body K N V σ B)

/-- A machine about to do a routine in a world without anything in it. -/
def Starts (m : Machine K N V σ B) : Prop :=
  ∃ client routine, m = start { client } routine

/-- One machine goes on: it makes a step, or the next line of a session is started, in whatever
state the session keeps, because there is no step to make. -/
inductive Follows : Machine K N V σ B → Machine K N V σ B → Prop
  | step {m m'} (made : m.step body = some m') : Follows m m'
  | line {m} (ended : m.step body = none) (client : σ) (routine : Body K N V σ B) :
      Follows m (start { m.world with client } routine)

/-- The context belongs to a call in progress. -/
def Holds (m : Machine K N V σ B) (x : ContextId) : Prop :=
  (∃ frame ∈ m.stack, frame.context = x) ∨
    match m.focus with
    | .ask y _ _ => y = x
    | .reply y _ _ _ => y = x
    | _ => False

/-- One machine goes on, or another machine in the same world makes a step. A context belongs to
the thread that runs the pass, so others leave it alone. -/
inductive FollowsAmong : Machine K N V σ B → Machine K N V σ B → Prop
  | own {m m'} (follows : Follows body m m') : FollowsAmong m m'
  | other {m} (o o' : Machine K N V σ B) (shares : o.world = m.world)
      (made : o.step body = some o')
      (apart : ∀ x, m.Holds x → ∀ k, o'.world.keyState x k = m.world.keyState x k) :
      FollowsAmong m { m with world := o'.world }

/-- A machine makes a step, and any machine in the world that this leaves makes the next one. -/
def Interleaves (m n : Machine K N V σ B) : Prop :=
  ∃ m', m.step body = some m' ∧ n.world = m'.world

end

end Machine

/-- A run of any number of machines in one world, which has nothing in it at first. -/
abbrev Interleaving (body : B → ContextId → K → Body K N V σ B) : Type :=
  Execution (fun m : Machine K N V σ B => ∃ client, m.world = { client })
    (Machine.Interleaves body)

namespace Machine

variable {body : B → ContextId → K → Body K N V σ B}

/-- A run is one step longer if its last state can make a step. -/
theorem run_succ_of_step {i : Nat} {m m' : Machine K N V σ B}
    (h : (run body i m).step body = some m') : run body (i + 1) m = m' := by
  rw [run_add, run, h]
  rfl

/-- The states that a run goes through. -/
def runExecution {init : Machine K N V σ B → Prop}
    {next : Machine K N V σ B → Machine K N V σ B → Prop} (m : Machine K N V σ B) (length : Nat)
    (starts : init m) (steps : ∀ m m', m.step body = some m' → next m m')
    (runs : ∀ i < length, ((run body i m).step body).isSome = true) : Execution init next where
  length
  state i := run body i m
  starts
  goes i hi := by
    obtain ⟨m', hm'⟩ := Option.isSome_iff_exists.1 (runs i hi)
    rw [run_succ_of_step hm']
    exact steps _ _ hm'

end Machine

end DerivationCache
