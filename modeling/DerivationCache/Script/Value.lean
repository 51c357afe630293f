import DerivationCache.Identity
import DerivationCache.Script.Key

/-!
# Scripted values

The values that scripted builders derive: a 64-bit integer, a string, a list, a broken link
to a key, or a link that forwards to a placeholder cell. Equality is structural, and two
links are equal exactly if they share one cell: what a cell holds plays no part in it.
-/

namespace DerivationCache.Script

/-- A value of a scripted cache. -/
inductive Value where
  | int (value : Int64)
  | str (value : String)
  | list (items : List Value)
  /-- A stand-in that says which key it stands for and nothing more. -/
  | broken (key : Key)
  /-- A link to the value that a placeholder cell receives. -/
  | forward (cell : CellId)

namespace Value

/-- The number zero serves as a default. -/
instance : Inhabited Value := ⟨int 0⟩

mutual

/-- Whether two values are the same. -/
def same : Value → Value → Bool
  | int a, int b => a == b
  | str a, str b => a == b
  | list as, list bs => sameItems as bs
  | broken k, broken l => decide (k = l)
  | forward h, forward i => decide (h = i)
  | _, _ => false

/-- Whether two lists of values are the same. -/
def sameItems : List Value → List Value → Bool
  | [], [] => true
  | a :: as, b :: bs => same a b && sameItems as bs
  | _, _ => false

end

mutual

/-- The comparison decides equality. -/
theorem same_iff : (a b : Value) → (same a b = true ↔ a = b)
  | int _, b => by cases b <;> simp [same]
  | str _, b => by cases b <;> simp [same]
  | broken _, b => by cases b <;> simp [same]
  | forward _, b => by cases b <;> simp [same]
  | list as, b => by
    cases b with
    | list bs => simp [same, sameItems_iff as bs]
    | _ => simp [same]

/-- The comparison of lists decides equality. -/
theorem sameItems_iff : (as bs : List Value) → (sameItems as bs = true ↔ as = bs)
  | [], bs => by cases bs <;> simp [sameItems]
  | a :: as, bs => by
    cases bs with
    | nil => simp [sameItems]
    | cons b bs => simp [sameItems, same_iff a b, sameItems_iff as bs]

end

instance : DecidableEq Value := fun a b => decidable_of_iff _ (same_iff a b)

/-- A key as a value: integers and strings as they are, any other key by its text. -/
def ofKey : Key → Value
  | .int n => int n
  | .str s => str s
  | k => str (toString k)

/-- A value as a key, if it is an integer or a string. -/
def toKey? : Value → Option Key
  | int n => some (.int n)
  | str s => some (.str s)
  | _ => none

end Value

end DerivationCache.Script
