import DerivationCache.Proofs.Effect

/-!
# Awaited cells

A key that has been answered with a stand-in awaits a cell: recording a value for the key will
fill it. In every world that was worked on from the empty one (`World.Awaiting`) an awaited cell
is empty, and it is awaited for one key of one context only. So recording fills the cell that was
handed out for this very key, with this very value, and no other cell.

## Main results

* `World.Shift.awaiting`: whatever the effect of a step is, it keeps awaited cells empty and
  awaited for one key only.
* `World.Shift.cells_keep`: what a cell has received it keeps.
* `World.Shift.issued_lasts`: a placeholder that was issued for a key stays until the key is
  given a value, which the cell then has, or until the context is cleared.
-/

namespace DerivationCache

variable {K N V σ B : Type}

namespace Cells

/-- A cell that has just been made is empty. -/
theorem get?_alloc_fresh (cells : Cells V) : cells.get? cells.alloc.1 = none := by
  simp [get?, alloc, size]

/-- Making a cell makes one. -/
theorem size_alloc (cells : Cells V) : cells.alloc.2.size = cells.size + 1 := by
  simp [size, alloc]

/-- Filling a cell makes none. -/
theorem size_fill (cells : Cells V) (h : CellId) (v : V) :
    (cells.fill h v).size = cells.size := by
  simp [size, fill]

/-- Filling a cell leaves the other cells as they are. -/
theorem get?_fill_of_ne {cells : Cells V} {h h' : CellId} (hne : h ≠ h') (v : V) :
    (cells.fill h v).get? h' = cells.get? h' := by
  rw [get?_fill, if_neg fun hh => hne hh.1]

/-- An empty cell receives the value that it is filled with. -/
theorem get?_fill_of_empty {cells : Cells V} {h : CellId} (hlt : h.index < cells.size)
    (hnone : cells.get? h = none) (v : V) : (cells.fill h v).get? h = some v := by
  rw [get?_fill, if_pos ⟨rfl, hlt⟩, hnone, Option.getD_none]

/-- What a cell has received it keeps. -/
theorem get?_fill_of_some {cells : Cells V} {h : CellId} {u : V} (hu : cells.get? h = some u)
    (h' : CellId) (v : V) : (cells.fill h' v).get? h = some u := by
  rw [get?_fill]
  split
  · rename_i hh
    rw [hh.1, hu, Option.getD_some]
  · exact hu

/-- Recording a value makes none. -/
theorem size_resolve (cells : Cells V) (state : Option (Entry V)) (v : V) :
    (cells.resolve state v).size = cells.size := by
  unfold resolve
  split
  · exact size_fill cells _ v
  · rfl

/-- Recording a value leaves alone all cells but the one of the key's placeholder. -/
theorem get?_resolve_of_ne {cells : Cells V} {h : CellId} {state : Option (Entry V)}
    (hne : ∀ p, state = some (.placeholderIssued p) → p.cell ≠ h) (v : V) :
    (cells.resolve state v).get? h = cells.get? h := by
  unfold resolve
  split
  · rename_i p
    exact get?_fill_of_ne (hne p rfl) v
  · rfl

end Cells

namespace World

variable [DecidableEq K]

/-- The context has answered requests for the key with a stand-in whose cell is this one, and
has recorded no value for the key yet. -/
def Awaits (w : World K N V σ B) (x : ContextId) (k : K) (h : CellId) : Prop :=
  ∃ p, w.keyState x k = some (.placeholderIssued p) ∧ p.cell = h

/-- Awaited cells are empty, and each is awaited for one key of one context. -/
structure Awaiting (w : World K N V σ B) : Prop where
  made : ∀ {x k h}, w.Awaits x k h → h.index < w.cells.size
  empty : ∀ {x k h}, w.Awaits x k h → w.cells.get? h = none
  sole : ∀ {x y k l h}, w.Awaits x k h → w.Awaits y l h → x = y ∧ k = l

/-- Nothing is awaited in a world without contexts. -/
theorem Awaiting.empty_world (client : σ) :
    ({ client } : World K N V σ B).Awaiting := by
  have hnone (x : ContextId) (k : K) (h : CellId) :
      ¬ ({ client } : World K N V σ B).Awaits x k h := by
    rintro ⟨p, hp, -⟩
    simp [keyState, context?] at hp
  exact ⟨fun h => absurd h (hnone _ _ _), fun h => absurd h (hnone _ _ _),
    fun h => absurd h (hnone _ _ _)⟩

/-- A world in which no key awaits more than in another, and whose cells are the same. -/
theorem Awaiting.of_imp {w w' : World K N V σ B} (hw : w.Awaiting)
    (hcells : w'.cells.size = w.cells.size) (hget : ∀ h, w'.cells.get? h = w.cells.get? h)
    (himp : ∀ {x k h}, w'.Awaits x k h → w.Awaits x k h) : w'.Awaiting where
  made h := hcells ▸ hw.made (himp h)
  empty h := (hget _).trans (hw.empty (himp h))
  sole h h' := hw.sole (himp h) (himp h')

namespace Shift

variable {w w' : World K N V σ B} {e : Effect K V}

/-- A cell was awaited before, or its placeholder is issued now. -/
theorem awaits_source (h : w.Shift w' e) {y : ContextId} {l : K} {cell : CellId}
    (ha : w'.Awaits y l cell) : w.Awaits y l cell ∨ ∃ p, e = .issue y l p ∧ p.cell = cell := by
  obtain ⟨p, hp, hcell⟩ := ha
  rcases h.issued_source hp with hp | hissue
  · exact Or.inl ⟨p, hp, hcell⟩
  · exact Or.inr ⟨p, hissue, hcell⟩

/-- Whatever the effect of a step is, it keeps awaited cells empty and awaited for one key
only. -/
theorem awaiting (h : w.Shift w' e) (hw : w.Awaiting) : w'.Awaiting := by
  have hsource {x : ContextId} {k : K} {cell : CellId} (ha : w'.Awaits x k cell)
      (he : ∀ y l p, e ≠ .issue y l p) : w.Awaits x k cell := by
    rcases h.awaits_source ha with ha | ⟨p, hissue, -⟩
    · exact ha
    · exact absurd hissue (he x k p)
  cases h with
  | quiet states cells =>
      exact hw.of_imp (by rw [cells]) (fun _ => by rw [cells]) fun ha => hsource ha (by simp)
  | newCell states cells =>
      refine ⟨fun ha => ?_, fun ha => ?_, fun ha hb =>
        hw.sole (hsource ha (by simp)) (hsource hb (by simp))⟩
      · rw [cells, Cells.size_alloc]
        exact Nat.lt_succ_of_lt (hw.made (hsource ha (by simp)))
      · rw [cells, Cells.get?_alloc]
        exact hw.empty (hsource ha (by simp))
  | clear x states cells =>
      exact hw.of_imp (by rw [cells]) (fun _ => by rw [cells]) fun ha => hsource ha (by simp)
  | mark x k unseen states cells =>
      exact hw.of_imp (by rw [cells]) (fun _ => by rw [cells]) fun ha => hsource ha (by simp)
  | issue x k p pending fresh made states cells =>
      -- The cell of the placeholder has just been made, so nobody can have awaited it before.
      have hnew {y l cell} (ha : w.Awaits y l cell) : cell ≠ p.cell := by
        rintro rfl
        have hlt := hw.made ha
        rw [fresh] at hlt
        exact Nat.lt_irrefl _ hlt
      have hcases {y l cell} (ha : w'.Awaits y l cell) :
          (y = x ∧ l = k ∧ cell = p.cell) ∨ w.Awaits y l cell := by
        rcases awaits_source (.issue x k p pending fresh made states cells) ha with
          ha | ⟨q, hq, hcell⟩
        · exact Or.inr ha
        · obtain ⟨rfl, rfl, rfl⟩ : x = y ∧ k = l ∧ p = q := by simpa using hq
          exact Or.inl ⟨rfl, rfl, hcell.symm⟩
      refine ⟨fun ha => ?_, fun ha => ?_, fun ha hb => ?_⟩
      · rw [cells, Cells.size_alloc]
        rcases hcases ha with ⟨-, -, rfl⟩ | ha
        · rw [fresh]
          exact Nat.lt_succ_self _
        · exact Nat.lt_succ_of_lt (hw.made ha)
      · rw [cells, Cells.get?_alloc]
        rcases hcases ha with ⟨-, -, rfl⟩ | ha
        · rw [fresh, Cells.get?_alloc_fresh]
        · exact hw.empty ha
      · rcases hcases ha with ⟨hx, hk, rfl⟩ | ha
        · rcases hcases hb with ⟨hy, hl, -⟩ | hb
          · exact ⟨hx.trans hy.symm, hk.trans hl.symm⟩
          · exact absurd rfl (hnew hb)
        · rcases hcases hb with ⟨-, -, rfl⟩ | hb
          · exact absurd rfl (hnew ha)
          · exact hw.sole ha hb
  | record x k v states cells =>
      refine ⟨fun ha => ?_, fun ha => ?_, fun ha hb =>
        hw.sole (hsource ha (by simp)) (hsource hb (by simp))⟩
      · rw [cells, Cells.size_resolve]
        exact hw.made (hsource ha (by simp))
      · have hold := hsource ha (by simp)
        rw [cells, Cells.get?_resolve_of_ne, hw.empty hold]
        rintro q hq rfl
        -- Only the resolved key was waiting for the cell that is filled, and it waits no more.
        obtain ⟨rfl, rfl⟩ := hw.sole hold ⟨q, hq, rfl⟩
        obtain ⟨p, hp, -⟩ := ha
        rw [states, if_pos ⟨rfl, rfl⟩] at hp
        simp at hp

/-- A cell that is awaited for one key is never awaited for another. -/
theorem awaited_for (h : w.Shift w' e) {cell : CellId} {k : K}
    (hk : cell.index < w.cells.size ∧ ∀ y l, w.Awaits y l cell → l = k) :
    cell.index < w'.cells.size ∧ ∀ y l, w'.Awaits y l cell → l = k := by
  obtain ⟨hlt, hk⟩ := hk
  have hsize : w.cells.size ≤ w'.cells.size := by
    cases h with
    | quiet states cells => exact Nat.le_of_eq (by rw [cells])
    | newCell states cells => rw [cells, Cells.size_alloc]; exact Nat.le_succ _
    | clear x states cells => exact Nat.le_of_eq (by rw [cells])
    | mark x l unseen states cells => exact Nat.le_of_eq (by rw [cells])
    | issue x l p pending fresh made states cells =>
        rw [cells, Cells.size_alloc]; exact Nat.le_succ _
    | record x l v states cells => exact Nat.le_of_eq (by rw [cells, Cells.size_resolve])
  refine ⟨Nat.lt_of_lt_of_le hlt hsize, fun y l ha => ?_⟩
  rcases h.awaits_source ha with ha | ⟨p, rfl, rfl⟩
  · exact hk y l ha
  · cases h with
    | issue _ _ _ _ fresh _ _ _ =>
        rw [fresh] at hlt
        exact absurd hlt (Nat.lt_irrefl _)

/-- The cells have what they had, or a value is recorded for a key whose placeholder was issued,
and its cell is filled. -/
theorem cells_source (h : w.Shift w' e) :
    (∀ cell, w'.cells.get? cell = w.cells.get? cell) ∨
      ∃ x k v p, e = .record x k v ∧ w.keyState x k = some (.placeholderIssued p) ∧
        w'.cells = w.cells.fill p.cell v := by
  cases h with
  | quiet states cells => exact Or.inl fun _ => by rw [cells]
  | newCell states cells => exact Or.inl fun _ => by rw [cells, Cells.get?_alloc]
  | clear x states cells => exact Or.inl fun _ => by rw [cells]
  | mark x k unseen states cells => exact Or.inl fun _ => by rw [cells]
  | issue x k p pending fresh made states cells =>
      exact Or.inl fun _ => by rw [cells, Cells.get?_alloc]
  | record x k v states cells =>
      cases hs : w.keyState x k with
      | none => exact Or.inl fun _ => by rw [cells, hs]; rfl
      | some s =>
          cases s with
          | pending => exact Or.inl fun _ => by rw [cells, hs]; rfl
          | resolved u => exact Or.inl fun _ => by rw [cells, hs]; rfl
          | placeholderIssued p => exact Or.inr ⟨x, k, v, p, rfl, hs, by rw [cells, hs]; rfl⟩

/-- What a cell has received it keeps. -/
theorem cells_keep (h : w.Shift w' e) {cell : CellId} {v : V}
    (hv : w.cells.get? cell = some v) : w'.cells.get? cell = some v := by
  rcases h.cells_source with hsame | ⟨x, k, u, p, -, -, hfill⟩
  · rw [hsame, hv]
  · rw [hfill, Cells.get?_fill_of_some hv]

/-- A placeholder that was issued for a key stays until the key is given a value, which the cell
receives too, or until the context is cleared. -/
theorem issued_lasts (h : w.Shift w' e) (hw : w.Awaiting) {x : ContextId} {k : K}
    {p : Placeholder V} (hp : w.keyState x k = some (.placeholderIssued p)) :
    w'.keyState x k = some (.placeholderIssued p) ∨
      (∃ v, e = .record x k v ∧ w'.keyState x k = some (.resolved v) ∧
        w'.cells.get? p.cell = some v) ∨ e = .clear x := by
  rcases h.settled_lasts hp (by simp) with hsame | ⟨v, rfl, hv⟩ | hclear
  · exact Or.inl hsame
  · cases h with
    | record _ _ _ states cells =>
        have ha : w.Awaits x k p.cell := ⟨p, hp, rfl⟩
        refine Or.inr (Or.inl ⟨v, rfl, hv, ?_⟩)
        rw [cells, hp]
        exact Cells.get?_fill_of_empty (hw.made ha) (hw.empty ha) v
  · exact Or.inr (Or.inr hclear)

end Shift

variable {w w' : World K N V σ B} {d : Demand K V}

/-- Every change keeps awaited cells empty and awaited for one key only. -/
theorem Obeys.awaiting (h : w.Obeys w' d) (hw : w.Awaiting) : w'.Awaiting := by
  obtain ⟨e, hshift, -⟩ := h.shift
  exact hshift.awaiting hw

/-- A cell that was made is still awaited for one key only, after any change. -/
theorem Obeys.awaited_for (h : w.Obeys w' d) {cell : CellId} {k : K}
    (hk : cell.index < w.cells.size ∧ ∀ y l, w.Awaits y l cell → l = k) :
    cell.index < w'.cells.size ∧ ∀ y l, w'.Awaits y l cell → l = k := by
  obtain ⟨e, hshift, -⟩ := h.shift
  exact hshift.awaited_for hk

end World

end DerivationCache
