import DerivationCache.Script.Value

/-!
# Scripts

A script drives caches by a list of `Step`s. The builders of scripted caches are scripts as
well: a `Program` gives for each key a list of `Instr`uctions, which are steps, branches, and
the ways in which a builder ends.

Steps name the things they act on by strings; a name that is left out stands for a default.
The keys and values in a step are expressions, evaluated when the step is run.
-/

namespace DerivationCache.Script

/-! ### Expressions -/

/-- A key to be computed. -/
inductive KeyExpr where
  | lit (key : Key)
  /-- The key of the running builder call. -/
  | self
  /-- The integer key of the running builder call plus an offset, reduced by a modulus if one
  is given. -/
  | relative (offset : Int64) (modulus : Option Int64)
  /-- The integer or string in a variable. -/
  | variable (name : String)
  | list (items : List KeyExpr)

/-- A value to be computed. -/
inductive ValueExpr where
  | int (value : Int64)
  | str (value : String)
  | list (items : List ValueExpr)
  /-- The value of a variable, or another value if it has none. -/
  | variable (name : String) (orElse : Option ValueExpr)
  /-- The sum of those that are integers. -/
  | sum (items : List ValueExpr)
  /-- The number of builder calls so far. -/
  | calls
  /-- The number of builder calls for this key when the running one started. -/
  | myCalls
  /-- The number of the pass that the running builder was made for. -/
  | pass
  /-- The key of the running builder call. -/
  | ownKey
  | broken (key : KeyExpr)
  /-- The link to a cell. -/
  | handle (cell : Nat)
  /-- What a link forwards to; any other value as it is. -/
  | deref (link : ValueExpr)

/-- What a variable can hold. -/
inductive VariableKind where
  | int
  | str
  | list
  | broken
  | forward
  | error
  | none
  deriving DecidableEq

/-- What a branch depends on. -/
inductive Condition where
  | not (condition : Condition)
  /-- The running builder call is among the first so many for its key. -/
  | firstCalls (count : Int64)
  /-- The key of the running builder call is an integer below a bound. -/
  | keyBelow (bound : Int64)
  | equal (left right : ValueExpr)
  /-- A variable has no value, and no error either. -/
  | isNone (name : String)
  | isKind (name : String) (kind : VariableKind)

/-! ### Configurations -/

/-- Which keys belong to a cache. -/
inductive ScopeSpec where
  /-- Integers below a bound. -/
  | lessThan (bound : Int64)
  /-- Strings that start in a given way. -/
  | startsWith (start : String)
  /-- Tagged keys of one owner. -/
  | ownedBy (owner : String)
  | not (scope : ScopeSpec)

/-- What stands in for a key that is being derived. -/
inductive StandInSpec where
  /-- A link to the cell: bare, wrapped in a list, or replaced by a fixed value. -/
  | forwarding (wrap : Bool) (fixed : Option Value)
  /-- A broken link to the key, or a fixed value. -/
  | sentinel (fixed : Option Value)

/-- The kinds of errors that a script can raise. -/
inductive ErrorKind where
  | pendingAtCommit
  | unresolvedPlaceholder
  | unresolvableReentry
  | readOnlyCache
  | foreignKey
  | detachedCommit
  | placeholderUnresolved
  | keyNotFound
  | duplicateKey
  | conflict
  | derivation
  deriving DecidableEq

/-! ### Steps, instructions and programs -/

mutual

/-- What a script does with the engine. A cache or context that is not named is the one of
the running pass, or at top level the one of the default name. -/
inductive Step where
  | template (name : String) (config : ConfigSpec)
  | build (template name : String)
  | cache (name : String) (config : ConfigSpec)
  | cloneCache (cache : Option String) (name : String)
  | context (name : String) (parent : Option String) (builder : Option Program)
      (standIns : Option StandInSpec)
  | dropContext (context : Option String)
  | registry (name template : String) (ownKeys : Bool)
  | scopedCache (registry : String) (ns : Key) (name : Option String)
  | containsNamespace (registry : String) (ns : Key)
  | registryInfo (registry : String)
  | getOrAdd (cache : Option String) (key : KeyExpr)
  | cacheGet (cache : Option String) (key : KeyExpr)
  | tryAdd (cache : Option String) (key : KeyExpr) (value : ValueExpr)
  | set (cache : Option String) (key : KeyExpr) (value : ValueExpr)
  | cacheContains (cache : Option String) (key : KeyExpr)
  | cacheInfo (cache : Option String)
  | clearFailures (cache : Option String)
  | sameCache (cache : Option String) (other : String)
  | snapshot (cache : Option String)
  | resetMetrics (cache : Option String)
  | exposition (cache : Option String) (family : String)
  | sideCommit (cache : Option String) (entries : List (KeyExpr × ValueExpr))
  | spawnGet (cache : Option String) (key : KeyExpr)
  | parallel (cache : Option String) (key : KeyExpr) (threads : Nat)
  | getOrBuild (context : Option String) (key : KeyExpr)
  | add (context : Option String) (key : KeyExpr) (value : ValueExpr)
  | overwrite (context : Option String) (key : KeyExpr) (value : ValueExpr)
  | contextGet (context : Option String) (key : KeyExpr)
  | contextContains (context : Option String) (key : KeyExpr)
  | contextInfo (context : Option String)
  | entries (context : Option String)
  | clear (context : Option String)
  | commit (context : Option String)
  | parentIs (context : Option String) (cache : String)
  | eval (value : ValueExpr)
  | valueEq (left right : ValueExpr)
  | unfold (value : ValueExpr) (depth : Nat)
  | handle (cell : Nat)
  | handleEq (left right : Nat)
  | newPlaceholder (name : String) (standIn : StandInSpec)
  | placeholder (name : String)
  | error (kind : ErrorKind) (text : String)
  | errorInfo (name : String)
  | sameFailure (left right : String)
  | describeCache (cache : Option String) (pretty : Bool)
  | describeContext (context : Option String) (pretty : Bool)
  | describeRegistry (registry : String) (pretty : Bool)
  | describeTemplate (template : String) (pretty : Bool)
  | describeKey (key : KeyExpr) (pretty : Bool)

/-- An instruction of a builder. -/
inductive Instr where
  /-- Makes a step, remembers its result under a name, and lets the builder fail with its
  error unless that is caught. -/
  | step (step : Step) (name : Option String) (catches : Bool)
  | branch (condition : Condition) (yes no : List Instr)
  /-- Ends the builder with a value. -/
  | ret (value : ValueExpr)
  /-- Ends the builder with a new failure. -/
  | fail (message : String)
  /-- Ends the builder with an error that it makes up. -/
  | raise (kind : ErrorKind) (text : String)
  /-- Ends the builder with the error in a variable. -/
  | reraise (name : String)
  /-- Unwinds the builder and everything that waits for it. -/
  | panic (message : String)

/-- A builder: instructions for certain keys, and instructions for all others. -/
inductive Program where
  | mk (rules : List (Key × List Instr)) (default : Option (List Instr))

/-- How a scripted cache is configured. -/
inductive ConfigSpec where
  /-- With `perPass` every pass gets a builder of its own, which knows the number of the pass. -/
  | mk (builder : Option Program) (perPass : Bool) (standIns : Option StandInSpec)
      (scope : Option ScopeSpec) (cachesFailures : Bool)

end

namespace Program

/-- The rules for certain keys. -/
def rules : Program → List (Key × List Instr)
  | mk rules _ => rules

/-- The instructions for all other keys. -/
def default : Program → Option (List Instr)
  | mk _ default => default

/-- The instructions for a key: those of its first rule, else the default ones. -/
def instructions (p : Program) (k : Key) : Option (List Instr) :=
  match p.rules.find? fun rule => decide (rule.1 = k) with
  | some rule => some rule.2
  | none => p.default

end Program

/-- The word for a step in a log. -/
def Step.word : Step → String
  | template .. => "template"
  | build .. => "build"
  | cache .. => "cache"
  | cloneCache .. => "clone_cache"
  | context .. => "context"
  | dropContext .. => "drop_context"
  | registry .. => "registry"
  | scopedCache .. => "scoped_cache"
  | containsNamespace .. => "contains_namespace"
  | registryInfo .. => "registry_info"
  | getOrAdd .. => "get_or_add"
  | cacheGet .. => "cache_get"
  | tryAdd .. => "try_add"
  | set .. => "set"
  | cacheContains .. => "cache_contains"
  | cacheInfo .. => "cache_info"
  | clearFailures .. => "clear_failures"
  | sameCache .. => "ptr_eq"
  | snapshot .. => "snapshot"
  | resetMetrics .. => "reset_metrics"
  | exposition .. => "prometheus"
  | sideCommit .. => "side_commit"
  | spawnGet .. => "spawn_get"
  | parallel .. => "parallel"
  | getOrBuild .. => "get_or_build"
  | add .. => "add"
  | overwrite .. => "overwrite"
  | contextGet .. => "ctx_get"
  | contextContains .. => "ctx_contains"
  | contextInfo .. => "ctx_info"
  | entries .. => "entries"
  | clear .. => "clear"
  | commit .. => "commit"
  | parentIs .. => "parent_is"
  | eval .. => "eval"
  | valueEq .. => "value_eq"
  | unfold .. => "unfold"
  | handle .. => "handle"
  | handleEq .. => "handle_eq"
  | newPlaceholder .. => "new_placeholder"
  | placeholder .. => "placeholder"
  | error .. => "error"
  | errorInfo .. => "error_info"
  | sameFailure .. => "same_failure"
  | describeCache .. => "debug"
  | describeContext .. => "debug"
  | describeRegistry .. => "debug"
  | describeTemplate .. => "debug"
  | describeKey .. => "debug"

end DerivationCache.Script
