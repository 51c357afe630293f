import DerivationCache.Cache

/-!
# Generation contexts

A `Context` is the private workspace of one generation pass. It tracks every key that the
pass has touched:

    unseen ──requested──▶ pending ──recorded──▶ resolved
                             │                     ▲
                 requested again                   │ recorded
                             ▼                     │
                     placeholderIssued ────────────┘

Nothing of a pass is seen by others until the whole of it is committed, and a pass with a
key in flight (pending, or waiting on its placeholder) cannot be committed at all:
`Context.refusal` says which error a commit is refused with.
-/

namespace DerivationCache

variable {K V σ B : Type}

/-- The state of one key within a pass. -/
inductive Entry (V : Type) where
  /-- The key was requested and has no value yet. -/
  | pending
  /-- The key was requested again and was answered with a stand-in. -/
  | placeholderIssued (placeholder : Placeholder V)
  /-- A value is recorded. -/
  | resolved (value : V)

/-- The recorded value, if the entry has one. -/
def Entry.value? {V : Type} : Entry V → Option V
  | .resolved v => some v
  | _ => none

/-- The error that a commit is refused with because of this key, if it is in flight. -/
def Entry.refusal {K V : Type} [ToString K] (k : K) : Entry V → Option Violation
  | .pending => some (.pendingAtCommit (toString k))
  | .placeholderIssued _ => some (.unresolvedPlaceholder (toString k))
  | .resolved _ => none

/-- The workspace of one generation pass. -/
structure Context (K V σ B : Type) where
  entries : Table K (Entry V) := .empty
  /-- The cache this pass commits into. A context without one is detached. -/
  parent : Option CacheId := none
  /-- Derives the keys that the pass has not seen. -/
  builder : Option B := none
  /-- Makes stand-ins for keys that are requested again. -/
  placeholders : Option (PlaceholderFactory K V σ) := none

namespace Context

/-- The keys with a recorded value, each with that value. -/
def recorded (x : Context K V σ B) : List (K × V) :=
  x.entries.toList.filterMap fun (k, e) => e.value?.map (k, ·)

/-- The keys without a recorded value, each with its state. -/
def inFlight (x : Context K V σ B) : List (K × Entry V) :=
  x.entries.toList.filter fun (_, e) => e.value?.isNone

/-- The number of recorded values. -/
def size (x : Context K V σ B) : Nat := x.recorded.length

/-- The number of keys in flight. -/
def pendingSize (x : Context K V σ B) : Nat := x.inFlight.length

/-- Drops every entry, pending mark and placeholder. -/
def clear (x : Context K V σ B) : Context K V σ B := { x with entries := .empty }

/-- The error that a commit is refused with while keys are in flight: it names the first of them
that the listing comes to. -/
def refusal [ToString K] (x : Context K V σ B) : Option Violation :=
  x.entries.toList.findSome? fun (k, e) => e.refusal k

variable [DecidableEq K]

/-- The value recorded for a key. A pending key has none, and neither does a stand-in count. -/
def get? (x : Context K V σ B) (k : K) : Option V := (x.entries.get? k).bind Entry.value?

/-- Whether a value is recorded for the key. -/
def contains (x : Context K V σ B) (k : K) : Bool := (x.get? k).isSome

/-- The recorded value of a key, or the error that there is none. -/
def get [ToString K] (x : Context K V σ B) (k : K) : Except Violation V :=
  match x.get? k with
  | some v => .ok v
  | none => .error (.keyNotFound (toString k))

/-- The context with this state of a key. -/
def setEntry (x : Context K V σ B) (k : K) (e : Entry V) : Context K V σ B :=
  { x with entries := x.entries.insert k e }

/-- What recording a value for a key comes to within the context. -/
inductive RecordOutcome (C : Type) where
  /-- An equal value is recorded already. -/
  | unchanged
  /-- A different value is recorded, and it was not to be replaced. -/
  | duplicate
  /-- The value is recorded now, and this cell, if any, receives it. -/
  | recorded (context : C) (resolves : Option CellId)

/-- Records a value for a key. A recorded value is replaced only if `overwrite` is set. -/
def record [BEq V] (x : Context K V σ B) (k : K) (v : V) (overwrite : Bool) :
    RecordOutcome (Context K V σ B) :=
  let recorded := x.setEntry k (.resolved v)
  match x.entries.get? k with
  | some (.resolved existing) =>
    if overwrite then .recorded recorded none
    else if existing == v then .unchanged
    else .duplicate
  | some (.placeholderIssued p) => .recorded recorded (some p.cell)
  | _ => .recorded recorded none

end Context

end DerivationCache
