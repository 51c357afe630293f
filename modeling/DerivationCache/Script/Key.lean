import DerivationCache.Text.Form
import DerivationCache.Text.Quoted

/-!
# Scripted keys

The keys of scripted caches are plain data: nothing, a 64-bit integer, a string, a number
tagged with its owner, or a list of keys. They have a text, by which messages name them, and
a total order, in which listings are sorted.
-/

namespace DerivationCache.Script

/-- A key of a scripted cache. -/
inductive Key where
  | unit
  | int (value : Int64)
  | str (value : String)
  | tagged (owner : String) (id : Int64)
  | list (items : List Key)

namespace Key

/-- The unit key serves as a default. -/
instance : Inhabited Key := ⟨unit⟩

/-! ### Equality -/

mutual

/-- Whether two keys are the same. -/
def same : Key → Key → Bool
  | unit, unit => true
  | int a, int b => a == b
  | str a, str b => a == b
  | tagged o a, tagged p b => o == p && a == b
  | list as, list bs => sameItems as bs
  | _, _ => false

/-- Whether two lists of keys are the same. -/
def sameItems : List Key → List Key → Bool
  | [], [] => true
  | a :: as, b :: bs => same a b && sameItems as bs
  | _, _ => false

end

mutual

/-- The comparison decides equality. -/
theorem same_iff : (a b : Key) → (same a b = true ↔ a = b)
  | unit, b => by cases b <;> simp [same]
  | int _, b => by cases b <;> simp [same]
  | str _, b => by cases b <;> simp [same]
  | tagged _ _, b => by cases b <;> simp [same]
  | list as, b => by
    cases b with
    | list bs => simp [same, sameItems_iff as bs]
    | _ => simp [same]

/-- The comparison of lists decides equality. -/
theorem sameItems_iff : (as bs : List Key) → (sameItems as bs = true ↔ as = bs)
  | [], bs => by cases bs <;> simp [sameItems]
  | a :: as, bs => by
    cases bs with
    | nil => simp [sameItems]
    | cons b bs => simp [sameItems, same_iff a b, sameItems_iff as bs]

end

instance : DecidableEq Key := fun a b => decidable_of_iff _ (same_iff a b)

/-! ### Text -/

mutual

/-- The key as a form. -/
def form : Key → Text.Form
  | unit => .word "()"
  | int n => .word (toString n.toInt)
  | str s => .word (Text.quoted s)
  | tagged owner id =>
    .record "TaggedKey" [("owner", .word (Text.quoted owner)), ("id", .word (toString id.toInt))]
  | list items => .list (forms items)

/-- The form of each key. -/
def forms : List Key → List Text.Form
  | [] => []
  | k :: rest => form k :: forms rest

end

/-- The text that names the key in messages. -/
instance : ToString Key := ⟨fun k => k.form.plain⟩

/-! ### Order -/

/-- The place of a kind of key among the kinds. -/
def rank : Key → Nat
  | unit => 0
  | int _ => 1
  | str _ => 2
  | tagged _ _ => 3
  | list _ => 4

mutual

/-- Compares kinds first; integers by value, strings by code points, tagged keys by owner and
then number, lists by their first difference, a shorter list before its continuations. -/
def order : Key → Key → Ordering
  | int a, int b => compare a b
  | str a, str b => compare a b
  | tagged o a, tagged p b => (compare o p).then (compare a b)
  | list as, list bs => orderItems as bs
  | a, b => compare (rank a) (rank b)

/-- Compares two lists of keys by their first difference. -/
def orderItems : List Key → List Key → Ordering
  | [], [] => .eq
  | [], _ => .lt
  | _, [] => .gt
  | a :: as, b :: bs => (order a b).then (orderItems as bs)

end

/-- Whether the first key comes no later than the second. -/
def atMost (a b : Key) : Bool := order a b != .gt

end Key

end DerivationCache.Script
