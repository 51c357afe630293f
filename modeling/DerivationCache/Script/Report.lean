import DerivationCache.Error
import DerivationCache.Metrics.Counters
import DerivationCache.Placeholder
import DerivationCache.Script.Value

/-!
# Reports

What a session tells its reader: the answer or error of each step, the events that happened
during the step, and the sizes of all named things after it. A value is shown with the state
of its links at that moment, since a cell that is empty now may be filled later.

Which key a refused commit names depends on the order in which entries are listed, if several
keys are in flight. So that reports do not depend on it, they name none of these keys.
-/

namespace DerivationCache.Script

/-- A value as it is shown: every link says what it knows. -/
inductive Shown where
  | int (value : Int64)
  | str (value : String)
  | list (items : List Shown)
  | broken (key : Key)
  /-- A link, with whether its cell is filled. -/
  | link (cell : CellId) (isFilled : Bool)
  /-- A link in place of which the value of its cell is shown. -/
  | unfolded (cell : CellId) (value : Shown)
  /-- A link that could not be followed. -/
  | unresolved (cell : CellId) (error : Violation)

namespace Shown

mutual

/-- Shows a value, its links in the given way. -/
def ofValueWith (link : CellId → Shown) : Value → Shown
  | .int n => int n
  | .str s => str s
  | .list items => list (ofValuesWith link items)
  | .broken k => broken k
  | .forward h => link h

/-- Shows each of the values. -/
def ofValuesWith (link : CellId → Shown) : List Value → List Shown
  | [] => []
  | v :: rest => ofValueWith link v :: ofValuesWith link rest

end

/-- Shows a value without following its links. -/
def ofValue (cells : Cells Value) : Value → Shown :=
  ofValueWith fun h => link h (cells.isFilled h)

/-- Shows a value and follows its links to a depth. -/
def unfold (cells : Cells Value) : Nat → Value → Shown
  | 0 => ofValue cells
  | depth + 1 => ofValueWith fun h =>
    match cells.read h with
    | .ok v => unfolded h (unfold cells depth v)
    | .error e => unresolved h e

end Shown

/-- The key text in the report of a commit that was refused while several keys were in flight. -/
def severalKeys : String := "(any)"

/-- What is reported of the error that a commit was refused with, given the number of keys that
were in flight. -/
def reportedRefusal (inFlight : Nat) (e : Violation) : Violation :=
  if 1 < inFlight then .pendingAtCommit severalKeys else e

/-- What one of several threads came back with. -/
inductive ThreadReport where
  | returned (result : Except RequestError Shown)
  | panicked (message : String)

/-- What is known of a cell. -/
structure HandleReport where
  isResolved : Bool
  value : Option Shown
  result : Except Violation Shown
  form : String

/-- What is known of a placeholder. -/
structure PlaceholderReport where
  kind : PlaceholderKind
  isResolved : Bool
  result : Except Violation Shown
  standIn : Shown
  /-- Whether the stand-in is a link to the placeholder's own cell. -/
  ownHandle : Bool
  form : String

/-- What is known of a violated rule. -/
structure ViolationReport where
  error : Violation
  form : String

/-- What is known of an error. -/
structure ErrorReport where
  error : RequestError
  form : String
  violation : Option ViolationReport

/-- How two errors compare. -/
structure FailureComparison where
  /-- Whether they are one failure. -/
  same : Bool
  /-- Whether the first and a copy of it are one failure. -/
  sameCopy : Bool
  /-- Whether they are equal violations of a rule. -/
  violationsEqual : Bool

/-- What a step has to report. -/
inductive Answer where
  | truth (value : Bool)
  | count (value : Nat)
  | text (value : String)
  | value (value : Option Shown)
  | cacheInfo (size : Nat) (isReadOnly cachesFailures : Bool)
  | contextInfo (size pending : Nat) (attached : Bool)
  | registryInfo (namespaces : List Key)
  | snapshot (reading : Metrics.Snapshot)
  | entries (entries : List (Key × Shown))
  | threads (reports : List ThreadReport)
  | handle (report : HandleReport)
  /-- Whether two handles share a cell, and whether they are equal. -/
  | handleEq (sameCell equal : Bool)
  | placeholder (report : PlaceholderReport)
  | error (report : Option ErrorReport)
  | comparison (report : Option FailureComparison)

/-- Nothing to report but that it went well. -/
def Answer.fine : Answer := .truth true

/-- What a step comes to. -/
abbrev Result : Type := Except RequestError Answer

/-- Something that happened during a step. -/
inductive Event where
  /-- The builder of a pass was made. -/
  | pass (number : Nat)
  /-- A builder call starts. -/
  | enter (key : Key)
  /-- A builder call returns. -/
  | exit (key : Key) (result : Except RequestError Shown)
  /-- A stand-in was made for a key. -/
  | placeholder (key : Key) (cell : CellId)
  /-- A builder made a step. -/
  | did (word : String) (result : Result)

/-- How a step ended. -/
inductive Ending where
  | result (result : Result)
  | panic (message : String)

/-- What there is to say about one step of a session. -/
structure StepReport where
  ending : Ending
  /-- What happened, in order. -/
  log : List Event
  /-- The named caches, each with its numbers of published entries and remembered failures. -/
  caches : List (String × Nat × Nat)
  /-- The named contexts, each with its numbers of recorded and pending keys. -/
  contexts : List (String × Nat × Nat)

end DerivationCache.Script
