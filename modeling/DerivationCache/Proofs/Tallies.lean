import DerivationCache.Proofs.Counting
import DerivationCache.Proofs.Ensemble
import Mathlib.Data.Set.Card

/-!
# Tallies

The words of a cache wrap around, and are set back to zero at will. Over a run of an ensemble each
of them is the number of incidents since it was set back last (`Execution.tally`), modulo the size
of the word.

Where nothing is set back, what comes together on the way to a state can be compared with what is
left in the state: what is gained is in stock until it is lost, and what is spent was earned.

## Main results

* `Execution.since_balance`, `Execution.since_affords`: what comes together, and what is left.
* `counted_eq_tally`: in every state of a run the counters are the tallies.
-/

namespace DerivationCache

variable {K N V σ B ι : Type}

/-! ### Amounts that come together -/

namespace Execution

variable {S : Type} {init : S → Prop} {next : S → S → Prop}

/-- How much has come together on the way to a state since everything was last started anew. -/
def since (e : Execution init next) (restarts : S → Bool) (amount : S → Nat) : Nat → Nat
  | 0 => 0
  | i + 1 => if restarts (e.state i) then 0 else e.since restarts amount i + amount (e.state i)

variable (e : Execution init next) (restarts : S → Bool)

/-- The amount of a step is added, unless everything is started anew. -/
theorem since_succ {amount : S → Nat} {i : Nat} (h : restarts (e.state i) = false) :
    e.since restarts amount (i + 1) = e.since restarts amount i + amount (e.state i) := by
  rw [since, h, if_neg Bool.false_ne_true]

/-- What comes together of two amounts. -/
theorem since_add (amount amount' : S → Nat) (i : Nat) :
    e.since restarts (fun s => amount s + amount' s) i =
      e.since restarts amount i + e.since restarts amount' i := by
  induction i with
  | zero => rfl
  | succ i ih =>
      simp only [since, ih]
      split
      · rfl
      · omega

/-- What comes together of a smaller amount is less. -/
theorem since_le {amount amount' : S → Nat} {i : Nat}
    (h : ∀ j < i, amount (e.state j) ≤ amount' (e.state j)) :
    e.since restarts amount i ≤ e.since restarts amount' i := by
  induction i with
  | zero => exact Nat.le_refl _
  | succ i ih =>
      have hbefore := ih fun j hj => h j (Nat.lt_succ_of_lt hj)
      have hlast := h i (Nat.lt_succ_self i)
      simp only [since]
      split
      · exact Nat.le_refl _
      · omega

/-- What comes together depends on the amounts of the states so far. -/
theorem since_congr {amount amount' : S → Nat} {i : Nat}
    (h : ∀ j < i, amount (e.state j) = amount' (e.state j)) :
    e.since restarts amount i = e.since restarts amount' i :=
  Nat.le_antisymm (e.since_le restarts fun j hj => Nat.le_of_eq (h j hj))
    (e.since_le restarts fun j hj => Nat.le_of_eq (h j hj).symm)

/-- What comes together of a multiple. -/
theorem since_mul (n : Nat) (amount : S → Nat) (i : Nat) :
    e.since restarts (fun s => n * amount s) i = n * e.since restarts amount i := by
  induction i with
  | zero => rfl
  | succ i ih =>
      simp only [since, ih]
      split
      · rfl
      · exact (Nat.mul_add n _ _).symm

/-- Of nothing nothing comes together. -/
theorem since_eq_zero {amount : S → Nat} {i : Nat} (h : ∀ j < i, amount (e.state j) = 0) :
    e.since restarts amount i = 0 := by
  induction i with
  | zero => rfl
  | succ i ih =>
      simp only [since, ih fun j hj => h j (Nat.lt_succ_of_lt hj), h i (Nat.lt_succ_self i)]
      split <;> rfl

variable {restarts} {i : Nat}

/-- What is gained is in stock until it is lost. -/
theorem since_balance {gained lost : S → Nat} (stock : S → Nat)
    (quiet : ∀ j < i, restarts (e.state j) = false) (empty : stock (e.state 0) = 0)
    (balance : ∀ j < i, gained (e.state j) + stock (e.state j) =
      stock (e.state (j + 1)) + lost (e.state j)) :
    e.since restarts gained i = e.since restarts lost i + stock (e.state i) := by
  induction i with
  | zero => simp [since, empty]
  | succ i ih =>
      have hbefore := ih (fun j hj => quiet j (Nat.lt_succ_of_lt hj)) fun j hj =>
        balance j (Nat.lt_succ_of_lt hj)
      have hlast := balance i (Nat.lt_succ_self i)
      rw [e.since_succ restarts (quiet i (Nat.lt_succ_self i)),
        e.since_succ restarts (quiet i (Nat.lt_succ_self i))]
      omega

/-- What is spent has been earned. -/
theorem since_affords {spent earned : S → Nat} (purse : S → Nat)
    (quiet : ∀ j < i, restarts (e.state j) = false) (empty : purse (e.state 0) = 0)
    (affords : ∀ j < i, purse (e.state (j + 1)) + spent (e.state j) ≤
      purse (e.state j) + earned (e.state j)) :
    purse (e.state i) + e.since restarts spent i ≤ e.since restarts earned i := by
  induction i with
  | zero => simp [since, empty]
  | succ i ih =>
      have hbefore := ih (fun j hj => quiet j (Nat.lt_succ_of_lt hj)) fun j hj =>
        affords j (Nat.lt_succ_of_lt hj)
      have hlast := affords i (Nat.lt_succ_self i)
      rw [e.since_succ restarts (quiet i (Nat.lt_succ_self i)),
        e.since_succ restarts (quiet i (Nat.lt_succ_self i))]
      omega

/-- What comes together one by one is the number of steps at which it does. -/
theorem since_eq_ncard {amount : S → Nat} {P : S → Prop}
    (quiet : ∀ j < i, restarts (e.state j) = false)
    (hamount : ∀ j < i, (P (e.state j) → amount (e.state j) = 1) ∧
      (¬ P (e.state j) → amount (e.state j) = 0)) :
    e.since restarts amount i = {j | j < i ∧ P (e.state j)}.ncard := by
  induction i with
  | zero => simp [since]
  | succ i ih =>
      have hbefore := ih (fun j hj => quiet j (Nat.lt_succ_of_lt hj)) fun j hj =>
        hamount j (Nat.lt_succ_of_lt hj)
      obtain ⟨hone, hzero⟩ := hamount i (Nat.lt_succ_self i)
      rw [e.since_succ restarts (quiet i (Nat.lt_succ_self i)), hbefore]
      by_cases hP : P (e.state i)
      · have hinsert : {j | j < i + 1 ∧ P (e.state j)} = insert i {j | j < i ∧ P (e.state j)} := by
          ext j
          simp only [Set.mem_ofPred_eq, Set.mem_insert_iff, Nat.lt_succ_iff_lt_or_eq]
          constructor
          · rintro ⟨hj | rfl, hPj⟩
            · exact Or.inr ⟨hj, hPj⟩
            · exact Or.inl rfl
          · rintro (rfl | ⟨hj, hPj⟩)
            · exact ⟨Or.inr rfl, hP⟩
            · exact ⟨Or.inl hj, hPj⟩
        have hfinite : {j | j < i ∧ P (e.state j)}.Finite :=
          (Set.finite_lt_nat i).subset fun j hj => hj.1
        rw [hinsert, Set.ncard_insert_of_notMem (fun h => Nat.lt_irrefl i h.1) hfinite, hone hP]
      · have hsame : {j | j < i + 1 ∧ P (e.state j)} = {j | j < i ∧ P (e.state j)} := by
          ext j
          simp only [Set.mem_ofPred_eq, Nat.lt_succ_iff_lt_or_eq]
          constructor
          · rintro ⟨hj | rfl, hPj⟩
            · exact ⟨hj, hPj⟩
            · exact absurd hPj hP
          · rintro ⟨hj, hPj⟩
            exact ⟨Or.inl hj, hPj⟩
        rw [hsame, hzero hP, Nat.add_zero]

end Execution

/-! ### What runs count -/

section Runs

variable [DecidableEq ι] [DecidableEq K] [DecidableEq N] [BEq V] [ToString K]
  {body : B → ContextId → K → Body K N V σ B}

namespace Ensemble

variable (body) (s : Ensemble ι K N V σ B)

/-- The step that is made sets the counters of the cache back to zero. -/
def resets (c : CacheId) : Bool := (s.current.step body).isSome && s.current.resets c

/-- What the step counts that is made, and on which caches. -/
def incidents : List (CacheId × Metrics.Event) :=
  if (s.current.step body).isSome then s.current.incidents body else []

end Ensemble

variable (e : Execution (Ensemble.Starts (ι := ι)) (Ensemble.Next body))

/-- How often an event has occurred in a cache since the counters of the cache were set back
last. -/
def Execution.tally (c : CacheId) (event : Metrics.Event) : Nat → Nat :=
  e.since (·.resets body c) fun s => (s.incidents body).count (c, event)

/-- In every state of every run, what a cache has counted is the tally, modulo the size of a
word. -/
theorem counted_eq_tally {i : Nat} (hi : i ≤ e.length) (c : CacheId) (event : Metrics.Event) :
    (e.state i).world.counted c event = UInt64.ofNat (e.tally c event i) := by
  induction i with
  | zero =>
      obtain ⟨⟨client, hworld⟩, -⟩ := e.starts
      rw [hworld]
      rfl
  | succ i ih =>
      have hold := ih (Nat.le_of_succ_le hi)
      have htally : e.tally c event (i + 1) = if (e.state i).resets body c then 0
          else e.tally c event i + ((e.state i).incidents body).count (c, event) := rfl
      have hgoes := e.goes i hi
      rw [htally, Ensemble.resets, Ensemble.incidents]
      generalize e.state (i + 1) = s' at hgoes
      cases hgoes with
      | step made turn =>
          rw [Ensemble.advance_world, Machine.counted_step made, made, Option.isSome_some,
            Bool.true_and, if_pos rfl]
          split
          · rfl
          · rw [UInt64.ofNat_add, ← hold]
            rfl
      | line ended idle task fresh client turn =>
          have hcounted : ({ (e.state i).world with client } : World K N V σ B).counted =
              (e.state i).world.counted := World.counted_congr rfl
          rw [Ensemble.advance_world, hcounted, hold, ended]
          rfl

end Runs

end DerivationCache
