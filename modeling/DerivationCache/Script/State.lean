import DerivationCache.Routine
import DerivationCache.Script.Report
import DerivationCache.Script.Step

/-!
# The state of a session

Scripted builders and the top level of a session share a `State`: the names they have given,
the counters that scripts can read, the session-wide variables, and the log of the step that
is being made. It is the client state of a world of scripted caches, so a script reads and
changes it by requests like everything else.
-/

namespace DerivationCache.Script

/-- What a variable holds: an error, a value, or nothing. -/
abbrev Binding : Type := Except RequestError (Option Value)

/-- The variables of one builder call, or of the top level. -/
abbrev Variables : Type := Table String Binding

/-- A scripted builder: its program, and the number of the pass it was made for, zero if it
is shared by all passes. -/
structure Builder where
  program : Program
  pass : Nat := 0

/-- What the scripts of a session share. -/
structure State where
  caches : Table String CacheId := .empty
  contexts : Table String ContextId := .empty
  registries : Table String RegistryId := .empty
  templates : Table String ConfigSpec := .empty
  placeholders : Table String (Placeholder Value) := .empty
  /-- The variables of the top level. -/
  bindings : Variables := .empty
  /-- The variables that all scripts of the session see. -/
  shared : Variables := .empty
  /-- The number of builder calls so far. -/
  calls : Nat := 0
  /-- The number of builder calls so far for each key, all caches together. -/
  callsByKey : Table Key Nat := .empty
  /-- The number of builders made for a pass. -/
  passes : Nat := 0
  /-- The number of counted failures. -/
  failures : Nat := 0
  /-- The number of uncounted failures. -/
  otherFailures : Nat := 0
  /-- What happened during the step, latest first. -/
  log : List Event := []
  /-- What the step came to, once it has been made. -/
  result : Option Result := none

/-- A world of scripted caches. -/
abbrev ScriptWorld : Type := World Key Key Value State Builder

/-- A configuration of scripted caches. -/
abbrev Settings : Type := Config Key Value State Builder

/-- Something that a script does. -/
abbrev Action (α : Type) : Type := Routine Key Key Value State Builder α

namespace State

/-- Adds an event to the log. -/
def note (s : State) (e : Event) : State := { s with log := e :: s.log }

/-- The number of builder calls so far for a key. -/
def callsFor (s : State) (k : Key) : Nat := (s.callsByKey.get? k).getD 0

/-- Counts a builder call for a key. -/
def countCall (s : State) (k : Key) : State :=
  { s with calls := s.calls + 1, callsByKey := s.callsByKey.insert k (s.callsFor k + 1) }

/-- A new failure with the next number. -/
def newFailure (s : State) (message : String) : Failure × State :=
  (⟨.counted (s.failures + 1), message⟩, { s with failures := s.failures + 1 })

/-- A new failure without a number. -/
def otherFailure (s : State) (message : String) : Failure × State :=
  (⟨.uncounted (s.otherFailures + 1), message⟩, { s with otherFailures := s.otherFailures + 1 })

/-- Whether a variable of this name is shared by all scripts of the session. -/
def isShared (name : String) : Bool := name.startsWith "g."

end State

/-! ### What specifications stand for -/

/-- Whether a key is in a scope. A key of another kind than the scope speaks of is not. -/
def ScopeSpec.owns : ScopeSpec → Key → Bool
  | lessThan bound, .int n => decide (n < bound)
  | startsWith start, .str s => s.startsWith start
  | ownedBy owner, .tagged o _ => o == owner
  | not scope, k => !scope.owns k
  | _, _ => false

/-- Whether a key belongs to a namespace: a string owns the keys tagged with it and the
strings that start with it, an integer owns its multiples, and zero owns nothing. -/
def belongs : Key → Key → Bool
  | .str ns, .tagged owner _ => owner == ns
  | .str ns, .str s => s.startsWith ns
  | .int ns, .int n => ns != 0 && n.toInt % ns.toInt == 0
  | _, _ => false

/-- The stand-in for a key, given its cell. -/
def StandInSpec.make (spec : StandInSpec) (k : Key) (cell : CellId) : PlaceholderKind × Value :=
  match spec with
  | forwarding _ (some fixed) => (.forwarding, fixed)
  | forwarding true none => (.forwarding, .list [.str "wrap", .forward cell])
  | forwarding false none => (.forwarding, .forward cell)
  | sentinel (some fixed) => (.sentinel, fixed)
  | sentinel none => (.sentinel, .broken k)

/-- Makes stand-ins and notes each of them. -/
def StandInSpec.factory (spec : StandInSpec) : PlaceholderFactory Key Value State :=
  fun k cell s => (spec.make k cell, s.note (.placeholder k cell))

/-- The way to make the builder of a pass. A builder made for its pass alone is noted. -/
def Program.maker (p : Program) (perPass : Bool) (s : State) : Builder × State :=
  if perPass then
    let n := s.passes + 1
    ({ program := p, pass := n }, { s with passes := n }.note (.pass n))
  else ({ program := p }, s)

/-- The configuration that a specification stands for. -/
def ConfigSpec.settings : ConfigSpec → Settings
  | mk builder perPass standIns scope cachesFailures =>
    { makeBuilder := builder.map (·.maker perPass)
      placeholders := standIns.map (·.factory)
      scope := scope.map (·.owns)
      cachesFailures }

end DerivationCache.Script
