import DerivationCache.Error
import DerivationCache.Identity

/-!
# Placeholders

A key that is requested again while its own derivation is still running is answered with a
placeholder: a stand-in value, paired with the cell that receives the key's real value. A
forwarding stand-in refers to the cell and can be read once the cell is filled; a sentinel
never looks at it.

The cells of a world are a `Cells` table. A cell is written at most once
(`Cells.get?_fill`), so what a handle has read it reads for ever.
-/

namespace DerivationCache

/-- How a placeholder stands in for its value. -/
inductive PlaceholderKind where
  /-- The stand-in defers to the resolved value. -/
  | forwarding
  /-- The stand-in is a value of its own and ignores resolution. -/
  | sentinel
  deriving DecidableEq

/-- A stand-in for a key that is being derived, and the cell that receives the real value. -/
structure Placeholder (V : Type) where
  kind : PlaceholderKind
  standIn : V
  cell : CellId

/-- Produces the stand-in for a key. It is told the fresh cell, which a forwarding stand-in
refers to, and may read and change the state that the collaborators share. -/
abbrev PlaceholderFactory (K V σ : Type) : Type :=
  K → CellId → σ → (PlaceholderKind × V) × σ

/-- Write-once cells. -/
structure Cells (V : Type) where
  slots : Array (Option V) := #[]

namespace Cells

variable {V : Type}

/-- The number of cells made so far, which is the index of the next one. -/
def size (c : Cells V) : Nat := c.slots.size

/-- The value of a cell, if it has one. -/
def get? (c : Cells V) (h : CellId) : Option V := c.slots[h.index]?.join

/-- Whether the cell has a value. -/
def isFilled (c : Cells V) (h : CellId) : Bool := (c.get? h).isSome

/-- The value of a cell, or the error that it has none yet. -/
def read (c : Cells V) (h : CellId) : Except Violation V :=
  match c.get? h with
  | some v => .ok v
  | none => .error .placeholderUnresolved

/-- Makes a fresh cell without a value. -/
def alloc (c : Cells V) : CellId × Cells V := (⟨c.size⟩, ⟨c.slots.push none⟩)

/-- Gives a cell its value. A cell that has one keeps it. -/
def fill (c : Cells V) (h : CellId) (v : V) : Cells V :=
  ⟨c.slots.modify h.index fun old => some (old.getD v)⟩

/-- A new cell is empty, and the others keep their values. -/
theorem get?_alloc (c : Cells V) (h : CellId) : c.alloc.2.get? h = c.get? h := by
  simp only [alloc, get?, size, Array.getElem?_push]
  split
  · rename_i heq
    simp [heq]
  · rfl

/-- Filling writes exactly the one cell, and only if it exists and is still empty. -/
theorem get?_fill (c : Cells V) (h h' : CellId) (v : V) :
    (c.fill h v).get? h' =
      if h = h' ∧ h.index < c.size then some ((c.get? h).getD v) else c.get? h' := by
  obtain ⟨i⟩ := h
  obtain ⟨j⟩ := h'
  simp only [fill, get?, size, Array.getElem?_modify, CellId.mk.injEq]
  by_cases hij : i = j
  · subst hij
    by_cases hi : i < c.slots.size
    · cases hs : c.slots[i] <;> simp [hi, hs]
    · simp [hi]
  · simp [hij]

end Cells

end DerivationCache
