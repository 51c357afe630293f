import DerivationCache.World

/-!
# Routines

A `Routine` is what a collaborator does with the engine, one request at a time: the body of a
builder, or the code that drives caches from outside. It is a tree. Each node is a request
together with what is done for every answer, so a routine can read answers, branch on them
and go on after an error, and can touch the engine in no other way.

Requests that no builder takes part in are `Request`s. Each is answered by one function on
worlds, `World.answer`. The three that may call builders are nodes of their own, because
their answers come only after other routines have run.
-/

namespace DerivationCache

variable {K N V σ B α β : Type}

/-- A request that is answered at once, with no builder called. -/
inductive Request (K N V σ B : Type) : Type where
  | newCache (config : Config K V σ B)
  /-- The published value of a key. -/
  | published (cache : CacheId) (key : K)
  | insert (cache : CacheId) (key : K) (value : V)
  | clearFailures (cache : CacheId)
  | resetCounters (cache : CacheId)
  /-- A context that commits nowhere. -/
  | newContext (builder : Option B) (placeholders : Option (PlaceholderFactory K V σ))
  /-- A context of a cache. A builder or a way to make stand-ins given here takes the place
  of the configured one. -/
  | createContext (cache : CacheId) (builder : Option B)
      (placeholders : Option (PlaceholderFactory K V σ))
  /-- Records a value, in place of a recorded one only if `overwrite` is set. -/
  | record (context : ContextId) (key : K) (value : V) (overwrite : Bool)
  /-- The value recorded for a key. -/
  | recorded (context : ContextId) (key : K)
  | clear (context : ContextId)
  | commit (context : ContextId)
  /-- A fresh placeholder cell. -/
  | newCell
  | newRegistry (template : Config K V σ B) (belongs : Option (N → K → Bool))
  /-- The cache of a namespace. -/
  | scopedCache (registry : RegistryId) (ns : N)
  /-- The world as it is. -/
  | observe
  /-- Replaces the state that the collaborators share. -/
  | setClient (client : σ)

/-- The type of the answers to a request. -/
@[reducible] def Request.Answer : Request K N V σ B → Type
  | newCache _ => CacheId
  | published _ _ => Except Violation (Option V)
  | insert _ _ _ => Except Violation Bool
  | clearFailures _ => Unit
  | resetCounters _ => Unit
  | newContext _ _ => ContextId
  | createContext _ _ _ => ContextId
  | record _ _ _ _ => Except Violation Unit
  | recorded _ _ => Except Violation V
  | clear _ => Unit
  | commit _ => Except Violation Bool
  | newCell => CellId
  | newRegistry _ _ => RegistryId
  | scopedCache _ _ => CacheId
  | observe => World K N V σ B
  | setClient _ => Unit

/-- Answers a request, unless it names something that was never made. -/
def World.answer [DecidableEq K] [DecidableEq N] [BEq V] [ToString K]
    (w : World K N V σ B) : (r : Request K N V σ B) → Option (r.Answer × World K N V σ B)
  | .newCache config => some (w.newCache config)
  | .published c k => (w.cache? c).map fun cache => (cache.published k, w)
  | .insert c k v => w.onCache c (·.insert k v)
  | .clearFailures c => w.onCache c fun cache => ((), cache.clearFailures)
  | .resetCounters c => w.onCache c fun cache => ((), cache.resetCounters)
  | .newContext builder placeholders => some (w.newContext { builder, placeholders })
  | .createContext c builder placeholders => do
    let (x, w) ← w.createContext c
    let context ← w.context? x
    return (x, w.setContext x { context with
      builder := builder <|> context.builder
      placeholders := placeholders <|> context.placeholders })
  | .record x k v overwrite => w.record x k v overwrite
  | .recorded x k => (w.context? x).map fun context => (context.get k, w)
  | .clear x => (w.context? x).map fun context => ((), w.setContext x context.clear)
  | .commit x => w.commit x
  | .newCell =>
    let (cell, cells) := w.cells.alloc
    some (cell, { w with cells })
  | .newRegistry template belongs => some (w.newRegistry template belongs)
  | .scopedCache r ns => w.scopedCache r ns
  | .observe => some (w, w)
  | .setClient client => some ((), { w with client })

/-- How a call ended on its thread. -/
inductive Outcome (V : Type) where
  | returned (result : Except RequestError V)
  | panicked (message : String)

/-- What a collaborator does, one request at a time. -/
inductive Routine (K N V σ B α : Type) : Type where
  /-- Returns a result. -/
  | done (result : α)
  /-- Unwinds every call it is part of. -/
  | panic (message : String)
  /-- Stops the whole run where it is. -/
  | halt
  /-- Makes a request that is answered at once. -/
  | perform (request : Request K N V σ B) (next : request.Answer → Routine K N V σ B α)
  /-- Requests a key within the pass of a context. -/
  | build (context : ContextId) (key : K)
      (next : Except RequestError (Option V) → Routine K N V σ B α)
  /-- Requests a derived value of a cache. -/
  | get (cache : CacheId) (key : K) (next : Except RequestError V → Routine K N V σ B α)
  /-- Requests one value on several fresh threads at the same time, and waits for them all. -/
  | race (cache : CacheId) (key : K) (threads : Nat)
      (next : List (Outcome V) → Routine K N V σ B α)

/-- The body of a builder call. -/
abbrev Body (K N V σ B : Type) : Type := Routine K N V σ B (Except RequestError V)

namespace Routine

/-- Does one routine and then the one that its result asks for. -/
protected def bind : Routine K N V σ B α → (α → Routine K N V σ B β) → Routine K N V σ B β
  | done a, f => f a
  | panic m, _ => panic m
  | halt, _ => halt
  | perform r next, f => perform r fun a => (next a).bind f
  | build x k next, f => build x k fun a => (next a).bind f
  | get c k next, f => get c k fun a => (next a).bind f
  | race c k n next, f => race c k n fun a => (next a).bind f

instance : Monad (Routine K N V σ B) where
  pure := done
  bind := Routine.bind

/-- Makes one request. -/
def ask (r : Request K N V σ B) : Routine K N V σ B r.Answer := perform r done

/-- Requests a key within the pass of a context. -/
def depend (x : ContextId) (k : K) : Routine K N V σ B (Except RequestError (Option V)) :=
  build x k done

/-- Requests a derived value of a cache. -/
def derive (c : CacheId) (k : K) : Routine K N V σ B (Except RequestError V) := get c k done

/-- Requests a derived value of a cache on a fresh thread and waits for that thread. If the
thread panics, so does whoever waits for it. -/
def deriveApart (c : CacheId) (k : K) : Routine K N V σ B (Except RequestError V) :=
  race c k 1 fun
    | [.returned r] => done r
    | [.panicked m] => panic m
    | _ => halt

/-- Inserts a value directly, and fails if a different one is published. -/
def insertOrFail [ToString K] (c : CacheId) (k : K) (v : V) :
    Routine K N V σ B (Except Violation Unit) := do
  match ← ask (.insert c k v) with
  | .error e => return .error e
  | .ok true => return .ok ()
  | .ok false => return .error (.duplicateKey (toString k))

end Routine

end DerivationCache
