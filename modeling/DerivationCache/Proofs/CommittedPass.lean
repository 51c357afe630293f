import DerivationCache.Proofs.Awaiting
import DerivationCache.Proofs.Execution

/-!
# Committed passes

A request for a key within a pass may be answered from four places: the store of the parent, a
recorded value, a stand-in, or a builder that is called now. All of them can change while the
pass goes on. This module proves that a pass which is committed has given no answer that the
published values contradict, whoever else worked on the world in between, provided that no
recorded value of the pass was replaced by a different one and its context was not cleared. A
pass need not be the first one of its context: what went on before it does not matter.

The proof follows each kind of answer from the moment it is given to the commit. A published
value stays. A recorded value stays up to equality, and the commit publishes it or fails. A
stand-in stays in place until its key is given a value, which its cell then has, and which is
then a recorded value like any other.

## Main results

* `World.Obeys.recorded_lasts`, `World.Obeys.placeholder_lasts`: what a single step that does
  not disturb a context leaves of its entries.
* `committed_answers_agree`: the answers given in a pass that is committed agree with what is
  published.
-/

namespace DerivationCache

variable {K N V σ B : Type} [DecidableEq K] [BEq V]

namespace World

/-- Whether a value other than this one is recorded for the key. -/
def recordsOther (w : World K N V σ B) (x : ContextId) (k : K) (v : V) : Bool :=
  match w.keyState x k with
  | some (.resolved u) => !(u == v)
  | _ => false

end World

/-- Whether what is demanded drops the entries of a context, or puts a different value in the
place of a recorded one. -/
def Demand.disturbs (d : Demand K V) (w : World K N V σ B) (x : ContextId) : Bool :=
  match d with
  | .clear y => y = x
  | .record y k v true => y = x && w.recordsOther x k v
  | _ => false

/-- Whether the next step of a machine drops the entries of a context, or puts a different value
in the place of a recorded one. -/
def Machine.disturbs (m : Machine K N V σ B) (x : ContextId) : Bool :=
  m.demand.disturbs m.world x

namespace World

/-- The cell of a placeholder that was once issued for the key has received the value that is
recorded for the key. -/
def Forwards (w : World K N V σ B) (x : ContextId) (k : K) (p : Placeholder V) : Prop :=
  ∃ u v, w.keyState x k = some (.resolved u) ∧ w.cells.get? p.cell = some v ∧ (v == u) = true

namespace Obeys

variable {w w' : World K N V σ B} {d : Demand K V} {x : ContextId} {k : K}

/-- A step that does not disturb a context replaces a recorded value by an equal one at most. -/
theorem resolved_lasts [ReflBEq V] (h : w.Obeys w' d) (hd : d.disturbs w x = false) {u : V}
    (hu : w.keyState x k = some (.resolved u)) :
    ∃ v, w'.keyState x k = some (.resolved v) ∧ (u == v) = true := by
  obtain ⟨e, hshift, hpermits, -⟩ := h.shift
  rcases hshift.settled_lasts hu (by simp) with hsame | ⟨v, rfl, hv⟩ | rfl
  · exact ⟨u, hsame, ReflBEq.rfl⟩
  · obtain ⟨o, rfl, hold⟩ := hpermits
    cases o with
    | false => exact absurd hu (hold rfl u)
    | true =>
        refine ⟨v, hv, ?_⟩
        simpa [Demand.disturbs, recordsOther, hu] using hd
  · obtain rfl : d = .clear x := hpermits
    simp [Demand.disturbs] at hd

/-- What is recorded stays recorded, up to equality. -/
theorem recorded_lasts [EquivBEq V] (h : w.Obeys w' d) (hd : d.disturbs w x = false) {u : V}
    (hu : ∃ v, w.keyState x k = some (.resolved v) ∧ (u == v) = true) :
    ∃ v, w'.keyState x k = some (.resolved v) ∧ (u == v) = true := by
  obtain ⟨v, hv, huv⟩ := hu
  obtain ⟨v', hv', hvv'⟩ := h.resolved_lasts hd hv
  exact ⟨v', hv', BEq.trans huv hvv'⟩

/-- A placeholder that was issued for a key stays, or comes to forward to its value. -/
theorem placeholder_lasts [EquivBEq V] (h : w.Obeys w' d) (hw : w.Awaiting)
    (hd : d.disturbs w x = false) {p : Placeholder V}
    (hp : w.keyState x k = some (.placeholderIssued p) ∨ w.Forwards x k p) :
    w'.keyState x k = some (.placeholderIssued p) ∨ w'.Forwards x k p := by
  obtain ⟨e, hshift, hpermits, -⟩ := h.shift
  rcases hp with hp | ⟨u, v, hu, hv, hvu⟩
  · rcases hshift.issued_lasts hw hp with hsame | ⟨v, -, hstate, hcell⟩ | rfl
    · exact Or.inl hsame
    · exact Or.inr ⟨v, v, hstate, hcell, ReflBEq.rfl⟩
    · obtain rfl : d = .clear x := hpermits
      simp [Demand.disturbs] at hd
  · obtain ⟨u', hu', huu'⟩ := h.resolved_lasts hd hu
    exact Or.inr ⟨u', v, hu', hshift.cells_keep hv, BEq.trans hvu huu'⟩

end Obeys

end World

/-! ### Runs of a pass -/

section Runs

variable [DecidableEq N] [ToString K] {body : B → ContextId → K → Body K N V σ B}

/-- A request for a key within a pass is answered with this value by a step of the run. -/
def Answered (e : Interleaving body) (i : Nat) (x : ContextId) (k : K) (u : V) : Prop :=
  ∃ m asker, (e.state i).step body = some m ∧ m.focus = .reply x k (.ok (some u)) asker

/-- This placeholder is issued for a key of the context at some moment from the first one to the
last. -/
def Issued (e : Interleaving body) (first last : Nat) (x : ContextId) (k : K)
    (p : Placeholder V) : Prop :=
  ∃ j, first ≤ j ∧ j ≤ last ∧ (e.state j).world.keyState x k = some (.placeholderIssued p)

variable (e : Interleaving body) {x : ContextId} {k : K} {first last : Nat}

/-- Whoever makes a step, the world does no more than the step demands. -/
theorem interleaving_obeys {i : Nat} (hi : i < e.length) :
    (e.state i).world.Obeys (e.state (i + 1)).world (e.state i).demand := by
  obtain ⟨m, hm, hworld⟩ := e.goes i hi
  rw [hworld]
  exact (Transition.of_step hm).obeys

/-- In every state, awaited cells are empty and awaited for one key only. -/
theorem interleaving_awaiting {i : Nat} (hi : i ≤ e.length) : (e.state i).world.Awaiting := by
  refine e.invariant (I := fun m => m.world.Awaiting) ?_ ?_ hi
  · rintro m ⟨client, hm⟩
    rw [hm]
    exact World.Awaiting.empty_world client
  · rintro m m' ⟨m₁, hm, hworld⟩ ha
    rw [hworld]
    exact (Transition.of_step hm).obeys.awaiting ha

/-- What an answer has behind it has a step made after it. -/
theorem Answered.gives {i : Nat} {u : V} (h : Answered e i x k u) (hi : i < e.length) :
    (e.state (i + 1)).world.Gives x k u := by
  obtain ⟨m, asker, hm, hfocus⟩ := h
  obtain ⟨m', hm', hworld⟩ := e.goes i hi
  obtain rfl : m = m' := Option.some.inj (hm.symm.trans hm')
  rw [hworld]
  exact (Transition.of_step hm).reply hfocus

variable [EquivBEq V] (hlength : last ≤ e.length)
variable (undisturbed : ∀ i, first ≤ i → i < last → (e.state i).disturbs x = false)
include hlength undisturbed

/-- A placeholder that was issued is in place at every later moment, or forwards to the value of
its key. -/
theorem placeholder_lasts {i j : Nat} {p : Placeholder V} (hi : first ≤ i) (hij : i ≤ j)
    (hj : j ≤ last) (hp : (e.state i).world.keyState x k = some (.placeholderIssued p)) :
    (e.state j).world.keyState x k = some (.placeholderIssued p) ∨
      (e.state j).world.Forwards x k p := by
  refine e.lasts (P := fun m => m.world.keyState x k = some (.placeholderIssued p) ∨
    m.world.Forwards x k p) hij (Or.inl hp) fun l hil hlj hp => ?_
  have hl : l < last := Nat.lt_of_lt_of_le hlj hj
  have hle : l < e.length := Nat.lt_of_lt_of_le hl hlength
  exact (interleaving_obeys e hle).placeholder_lasts
    (interleaving_awaiting e (Nat.le_of_lt hle)) (undisturbed l (Nat.le_trans hi hil) hl) hp

/-- A value that was recorded is recorded at every later moment, up to equality. -/
theorem recorded_lasts {i : Nat} {u : V} (hi : first ≤ i) (hlast : i ≤ last)
    (hu : (e.state i).world.keyState x k = some (.resolved u)) :
    ∃ v, (e.state last).world.keyState x k = some (.resolved v) ∧ (u == v) = true := by
  refine e.lasts (P := fun m => ∃ v, m.world.keyState x k = some (.resolved v) ∧
    (u == v) = true) hlast ⟨u, hu, ReflBEq.rfl⟩ fun l hil hl hu => ?_
  exact (interleaving_obeys e (Nat.lt_of_lt_of_le hl hlength)).recorded_lasts
    (undisturbed l (Nat.le_trans hi hil) hl) hu

/-- No key is ever issued a second placeholder. -/
theorem Issued.unique {p q : Placeholder V} (hp : Issued e first last x k p)
    (hq : Issued e first last x k q) : p = q := by
  obtain ⟨i, hi, hil, hp⟩ := hp
  obtain ⟨j, hj, hjl, hq⟩ := hq
  have heq {i j : Nat} {p q : Placeholder V} (hi : first ≤ i) (hij : i ≤ j) (hj : j ≤ last)
      (hp : (e.state i).world.keyState x k = some (.placeholderIssued p))
      (hq : (e.state j).world.keyState x k = some (.placeholderIssued q)) : p = q := by
    rcases placeholder_lasts e hlength undisturbed hi hij hj hp with hp | ⟨u, v, hu, -⟩
    · rw [hp] at hq
      exact Entry.placeholderIssued.inj (Option.some.inj hq)
    · simp [hu] at hq
  rcases Nat.le_total i j with hij | hji
  · exact heq hi hij hjl hp hq
  · exact (heq hj hji hil hq hp).symm

/-- In a pass that is committed, without any recorded value replaced by a different one and
without its context cleared since the first moment, every answer agrees with what is published
then: it is the published value, or the stand-in of the one placeholder that was issued for the
key, and the cell of that placeholder has the published value. -/
theorem committed_answers_agree {w : World K N V σ B}
    (commit : (e.state last).world.commit x = some (.ok true, w)) {i : Nat} (hi : first ≤ i)
    (hlast : i < last) {u : V} (answered : Answered e i x k u) :
    ∃ c v, w.parent? x = some c ∧ w.stored c k = some v ∧
      ((u == v) = true ∨ ∃ p, u = p.standIn ∧ (∀ q, Issued e first last x k q ↔ q = p) ∧
        ∃ v', w.cells.read p.cell = .ok v' ∧ (v' == v) = true) := by
  obtain ⟨c, hparent, hparent', hcells, hready⟩ := World.commit_ok commit
  have hgives := answered.gives e (Nat.lt_of_lt_of_le hlast hlength)
  have hnext : first ≤ i + 1 := Nat.le_succ_of_le hi
  cases hgives with
  | published c' u parent stored =>
      have hkept : (e.state last).world.parent? x = some c' ∧
          (e.state last).world.stored c' k = some u := by
        refine e.lasts (P := fun m => m.world.parent? x = some c' ∧
          m.world.stored c' k = some u) hlast ⟨parent, stored⟩ fun l _ hl hkept => ?_
        have hgrows := (interleaving_obeys e (Nat.lt_of_lt_of_le hl hlength)).grows
        exact ⟨hgrows.parent hkept.1, hgrows.stored _ _ _ hkept.2⟩
      obtain rfl : c = c' := Option.some.inj (hparent.symm.trans hkept.1)
      exact ⟨c, u, hparent', World.commit_keeps commit hkept.2, Or.inl ReflBEq.rfl⟩
  | recorded u state =>
      obtain ⟨v, hv, huv⟩ := recorded_lasts e hlength undisturbed hnext hlast state
      obtain ⟨u', hstored, hu'⟩ := World.commit_true commit hparent hv
      exact ⟨c, u', hparent', hstored, Or.inl (BEq.trans huv (BEq.symm hu'))⟩
  | standIn p state =>
      rcases placeholder_lasts e hlength undisturbed hnext hlast (Nat.le_refl last) state with
        hp | hforwards
      · obtain ⟨v, hv⟩ := hready k _ hp
        simp at hv
      · obtain ⟨u, v, hu, hv, hvu⟩ := hforwards
        obtain ⟨u', hstored, hu'⟩ := World.commit_true commit hparent hu
        have hissued : Issued e first last x k p := ⟨i + 1, hnext, hlast, state⟩
        refine ⟨c, u', hparent', hstored, Or.inr ⟨p, rfl, fun q => ⟨fun hq => ?_, ?_⟩, v, ?_, ?_⟩⟩
        · exact hq.unique e hlength undisturbed hissued
        · rintro rfl
          exact hissued
        · rw [Cells.read, hcells, hv]
        · exact BEq.trans hvu (BEq.symm hu')

end Runs

/-! ### A key that needs itself -/

namespace SelfRequest

/-- A link to a cell, a number, or a value put into a box. -/
inductive Value where
  | link (cell : CellId)
  | number (n : Nat)
  | boxed (inner : Value)
  deriving DecidableEq

/-- The builder of a key requests the key itself, and boxes what it is given. -/
def body (_ : Unit) (x : ContextId) (k : Nat) : Body Nat Unit Value Unit Unit :=
  .build x k fun
    | .error e => .done (.error e)
    | .ok none => .done (.ok (.number k))
    | .ok (some v) => .done (.ok (.boxed v))

/-- Stand-ins are links. -/
def config : Config Nat Value Unit Unit where
  makeBuilder := some fun client => ((), client)
  placeholders := some fun _ cell client => ((.forwarding, .link cell), client)

/-- A cache is made, and a key requested. -/
def main : Machine Nat Unit Value Unit Unit :=
  .start { client := () } (.perform (.newCache config) fun c => .get c 7 .done)

theorem main_runs : ∀ i < 10, ((main.run body i).step body).isSome = true := by
  decide +kernel

/-- The pass of a key that needs itself. -/
def pass : Interleaving body :=
  main.runExecution 10 ⟨(), rfl⟩ (fun _ m' h => ⟨m', h, rfl⟩) main_runs

/-- The key that needs itself is answered with a link, whose cell has the published value once
the pass is committed. -/
theorem pass_answers_agree :
    (∀ i, 0 ≤ i → i < 8 → (pass.state i).disturbs ⟨0⟩ = false) ∧
      Answered pass 5 ⟨0⟩ 7 (.link ⟨0⟩) ∧
      ∃ w, (pass.state 8).world.commit ⟨0⟩ = some (.ok true, w) ∧
        ∃ c v, w.parent? ⟨0⟩ = some c ∧ w.stored c 7 = some v ∧
          ((.link ⟨0⟩ == v) = true ∨ ∃ p, .link ⟨0⟩ = p.standIn ∧
            (∀ q, Issued pass 0 8 ⟨0⟩ 7 q ↔ q = p) ∧
            ∃ v', w.cells.read p.cell = .ok v' ∧ (v' == v) = true) := by
  have disturbs : ∀ i < 8, (pass.state i).disturbs ⟨0⟩ = false := by decide +kernel
  have undisturbed : ∀ i, 0 ≤ i → i < 8 → (pass.state i).disturbs ⟨0⟩ = false :=
    fun i _ hi => disturbs i hi
  have answered : Answered pass 5 ⟨0⟩ 7 (.link ⟨0⟩) := ⟨_, _, rfl, rfl⟩
  have commit : ∃ w, (pass.state 8).world.commit ⟨0⟩ = some (.ok true, w) := ⟨_, rfl⟩
  have hlength : 8 ≤ pass.length := by decide
  refine ⟨undisturbed, answered, ?_⟩
  obtain ⟨w, commit⟩ := commit
  exact ⟨w, commit, committed_answers_agree pass hlength undisturbed commit (by decide)
    (by decide) answered⟩

end SelfRequest

end DerivationCache
