import DerivationCache.Describe
import DerivationCache.Script.State

/-!
# Evaluation of expressions

Expressions are evaluated against a `View`: the place in the script, the variables seen from
there, and the world as it is at that moment. Evaluation changes nothing. It can end in an
error of the engine, which a script can catch, or find that the script itself makes no sense,
which nothing can catch.
-/

namespace DerivationCache.Script

/-- Where in a session something is done. -/
structure Site where
  /-- The context and key of the running builder call; none at top level. -/
  call : Option (ContextId × Key) := none
  /-- The number of builder calls for the key, this one included; zero at top level. -/
  myCalls : Nat := 0
  /-- The number of the pass that the running builder was made for. -/
  pass : Nat := 0

/-- What the value of an expression depends on. -/
structure View where
  site : Site
  locals : Variables
  world : ScriptWorld

/-- Why an expression has no value. -/
inductive Fault where
  | error (error : RequestError)
  /-- The script cannot be understood. -/
  | nonsense

namespace View

/-- What a variable holds, if it was ever set. -/
def binding? (s : View) (name : String) : Option Binding :=
  if State.isShared name then s.world.client.shared.get? name else s.locals.get? name

/-- The key of the running builder call. -/
def key (s : View) : Except Fault Key :=
  match s.site.call with
  | some (_, k) => .ok k
  | none => .error .nonsense

/-- The integer key of the running builder call plus an offset, reduced by a modulus. -/
def relativeKey (s : View) (offset : Int64) (modulus : Option Int64) : Except Fault Key := do
  match ← s.key with
  | .int n =>
    let moved := n + offset
    match modulus with
    | none => return .int moved
    | some m =>
      if m = 0 then throw .nonsense
      else return .int (Int64.ofInt (moved.toInt % m.toInt))
  | _ => throw .nonsense

/-- The key in a variable. -/
def variableKey (s : View) (name : String) : Except Fault Key :=
  match s.binding? name with
  | some (.ok (some v)) =>
    match v.toKey? with
    | some k => .ok k
    | none => .error .nonsense
  | _ => .error .nonsense

mutual

/-- The value of a key expression. -/
def evalKey (s : View) : KeyExpr → Except Fault Key
  | .lit k => .ok k
  | .self => s.key
  | .relative offset modulus => s.relativeKey offset modulus
  | .variable name => s.variableKey name
  | .list items => do return .list (← evalKeys s items)

/-- The value of each key expression. -/
def evalKeys (s : View) : List KeyExpr → Except Fault (List Key)
  | [] => .ok []
  | e :: rest => do
    let k ← evalKey s e
    return k :: (← evalKeys s rest)

end

/-- The sum of those values that are integers. -/
def sumOf (values : List Value) : Int64 :=
  values.foldl (fun total v => match v with | .int n => total + n | _ => total) 0

/-- What a link forwards to; any other value as it is. -/
def follow (s : View) : Value → Except Fault Value
  | .forward cell =>
    match s.world.cells.read cell with
    | .ok v => .ok v
    | .error e => .error (.error (.violation e))
  | v => .ok v

/-- The link to a cell that was made before. -/
def link (s : View) (cell : Nat) : Except Fault Value :=
  if cell < s.world.cells.size then .ok (.forward ⟨cell⟩) else .error .nonsense

mutual

/-- The value of a value expression. -/
def eval (s : View) : ValueExpr → Except Fault Value
  | .int n => .ok (.int n)
  | .str t => .ok (.str t)
  | .list items => do return .list (← evalAll s items)
  | .variable name orElse =>
    match s.binding? name with
    | some (.error e) => .ok (.str e.kind)
    | some (.ok (some v)) => .ok v
    | _ => evalElse s orElse
  | .sum items => do return .int (sumOf (← evalAll s items))
  | .calls => .ok (.int (Int64.ofNat s.world.client.calls))
  | .myCalls => .ok (.int (Int64.ofNat s.site.myCalls))
  | .pass => .ok (.int (Int64.ofNat s.site.pass))
  | .ownKey => do return .ofKey (← s.key)
  | .broken k => do return .broken (← s.evalKey k)
  | .handle cell => s.link cell
  | .deref e => do s.follow (← eval s e)

/-- The value that takes the place of a variable without one. -/
def evalElse (s : View) : Option ValueExpr → Except Fault Value
  | none => .ok (.int 0)
  | some e => eval s e

/-- The value of each value expression. -/
def evalAll (s : View) : List ValueExpr → Except Fault (List Value)
  | [] => .ok []
  | e :: rest => do
    let v ← eval s e
    return v :: (← evalAll s rest)

end

/-- Whether a variable is of a kind. One that was never set holds nothing. -/
def isKind (s : View) (name : String) (kind : VariableKind) : Bool :=
  match (s.binding? name).getD (.ok none), kind with
  | .error _, .error => true
  | .ok none, .none => true
  | .ok (some (.int _)), .int => true
  | .ok (some (.str _)), .str => true
  | .ok (some (.list _)), .list => true
  | .ok (some (.broken _)), .broken => true
  | .ok (some (.forward _)), .forward => true
  | _, _ => false

/-- Whether a condition holds. -/
def holds (s : View) : Condition → Except Fault Bool
  | .not c => do return !(← holds s c)
  | .firstCalls count => .ok (decide ((s.site.myCalls : Int) ≤ count.toInt))
  | .keyBelow bound =>
    match s.site.call with
    | some (_, .int n) => .ok (decide (n < bound))
    | _ => .ok false
  | .equal left right => do return (← s.eval left) == (← s.eval right)
  | .isNone name => .ok (s.isKind name .none)
  | .isKind name kind => .ok (s.isKind name kind)

end View

end DerivationCache.Script
