import DerivationCache.Context
import DerivationCache.Registry

/-!
# Worlds

A `World` holds everything that outlives a single call: the caches, the contexts, the
placeholder cells, the registries and the state that the collaborators share among
themselves. Each operation that no builder takes part in is a function on worlds.

An operation that names a cache, context or registry that was never made has no answer, so
these functions return an `Option`. Whoever got the identity from the world itself never
sees `none`.
-/

namespace DerivationCache

variable {K N V σ B : Type}

/-- All state that outlives a single call. -/
structure World (K N V σ B : Type) where
  caches : Array (Cache K V σ B) := #[]
  /-- The contexts, those of finished passes among them, which nobody can name any more. -/
  contexts : Array (Context K V σ B) := #[]
  cells : Cells V := {}
  registries : Array (Registry K N V σ B) := #[]
  /-- The number of threads started so far, the first one included. -/
  threads : Nat := 1
  /-- The state that the collaborators share. -/
  client : σ

namespace World

/-! ### Looking up and replacing -/

/-- The cache of this name. -/
def cache? (w : World K N V σ B) (c : CacheId) : Option (Cache K V σ B) := w.caches[c.index]?

/-- The context of this name. -/
def context? (w : World K N V σ B) (x : ContextId) : Option (Context K V σ B) :=
  w.contexts[x.index]?

/-- The registry of this name. -/
def registry? (w : World K N V σ B) (r : RegistryId) : Option (Registry K N V σ B) :=
  w.registries[r.index]?

/-- The world with this cache under the name. -/
def setCache (w : World K N V σ B) (c : CacheId) (cache : Cache K V σ B) : World K N V σ B :=
  { w with caches := w.caches.setIfInBounds c.index cache }

/-- The world with this context under the name. -/
def setContext (w : World K N V σ B) (x : ContextId) (context : Context K V σ B) :
    World K N V σ B :=
  { w with contexts := w.contexts.setIfInBounds x.index context }

/-- The world with this registry under the name. -/
def setRegistry (w : World K N V σ B) (r : RegistryId) (registry : Registry K N V σ B) :
    World K N V σ B :=
  { w with registries := w.registries.setIfInBounds r.index registry }

/-- What a cache that is put back leaves of the others. -/
@[simp] theorem cache?_setCache (w : World K N V σ B) (c c' : CacheId) (cache : Cache K V σ B) :
    (w.setCache c cache).cache? c' =
      if c = c' then (w.cache? c).map fun _ => cache else w.cache? c' := by
  obtain ⟨i⟩ := c
  obtain ⟨j⟩ := c'
  simp only [setCache, cache?, Array.getElem?_setIfInBounds, CacheId.mk.injEq]
  by_cases hij : i = j
  · subst hij
    by_cases hi : i < w.caches.size <;> simp [hi]
  · simp [hij]

/-- A cache that is put back is found in its place. -/
theorem cache?_setCache_self {w : World K N V σ B} {c : CacheId} {old : Cache K V σ B}
    (h : w.cache? c = some old) (cache : Cache K V σ B) :
    (w.setCache c cache).cache? c = some cache := by
  rw [cache?_setCache, if_pos rfl, h, Option.map_some]

/-- What a context that is put back leaves of the others. -/
@[simp] theorem context?_setContext (w : World K N V σ B) (x x' : ContextId)
    (context : Context K V σ B) :
    (w.setContext x context).context? x' =
      if x = x' then (w.context? x).map fun _ => context else w.context? x' := by
  obtain ⟨i⟩ := x
  obtain ⟨j⟩ := x'
  simp only [setContext, context?, Array.getElem?_setIfInBounds, ContextId.mk.injEq]
  by_cases hij : i = j
  · subst hij
    by_cases hi : i < w.contexts.size <;> simp [hi]
  · simp [hij]

/-- A context that is put back is found in its place. -/
theorem context?_setContext_self {w : World K N V σ B} {x : ContextId} {old : Context K V σ B}
    (h : w.context? x = some old) (context : Context K V σ B) :
    (w.setContext x context).context? x = some context := by
  rw [context?_setContext, if_pos rfl, h, Option.map_some]

@[simp] theorem cache?_setContext (w : World K N V σ B) (x : ContextId)
    (context : Context K V σ B) (c : CacheId) :
    (w.setContext x context).cache? c = w.cache? c := rfl

@[simp] theorem context?_setCache (w : World K N V σ B) (c : CacheId) (cache : Cache K V σ B)
    (x : ContextId) : (w.setCache c cache).context? x = w.context? x := rfl

/-- Does to one cache what a function on caches says, and gives its answer. -/
def onCache {α : Type} (w : World K N V σ B) (c : CacheId)
    (f : Cache K V σ B → α × Cache K V σ B) : Option (α × World K N V σ B) :=
  (w.cache? c).map fun cache =>
    let (answer, cache) := f cache
    (answer, w.setCache c cache)

/-- Counts an event on the parent of a context. A detached context counts nothing. -/
def countOnParent (w : World K N V σ B) (x : Context K V σ B) (e : Metrics.Event) :
    World K N V σ B :=
  match x.parent with
  | none => w
  | some c =>
    match w.cache? c with
    | none => w
    | some cache => w.setCache c (cache.count e)

/-! ### Making things -/

/-- Makes a cache with nothing in it. -/
def newCache (w : World K N V σ B) (config : Config K V σ B) : CacheId × World K N V σ B :=
  (⟨w.caches.size⟩, { w with caches := w.caches.push (.ofConfig config) })

/-- Makes a context. -/
def newContext (w : World K N V σ B) (x : Context K V σ B) : ContextId × World K N V σ B :=
  (⟨w.contexts.size⟩, { w with contexts := w.contexts.push x })

/-- A new cache is there, next to the others. -/
theorem cache?_newCache (w : World K N V σ B) (config : Config K V σ B) (c : CacheId) :
    (w.newCache config).2.cache? c =
      if c = (w.newCache config).1 then some (.ofConfig config) else w.cache? c := by
  obtain ⟨i⟩ := c
  simp only [newCache, cache?, Array.getElem?_push, CacheId.mk.injEq]

/-- A new context is there, next to the others. -/
theorem context?_newContext (w : World K N V σ B) (context : Context K V σ B) (x : ContextId) :
    (w.newContext context).2.context? x =
      if x = (w.newContext context).1 then some context else w.context? x := by
  obtain ⟨i⟩ := x
  simp only [newContext, context?, Array.getElem?_push, ContextId.mk.injEq]

/-- Makes a context that commits into a cache, with a builder from the cache's
configuration, made for this context, and the configured stand-ins. -/
def createContext (w : World K N V σ B) (c : CacheId) : Option (ContextId × World K N V σ B) :=
  (w.cache? c).map fun cache =>
    let (builder, client) :=
      match cache.config.makeBuilder with
      | none => (none, w.client)
      | some make =>
        let (b, client) := make w.client
        (some b, client)
    { w with client }.newContext
      { parent := some c, builder, placeholders := cache.config.placeholders }

/-- Makes an empty registry. -/
def newRegistry (w : World K N V σ B) (template : Config K V σ B)
    (belongs : Option (N → K → Bool)) : RegistryId × World K N V σ B :=
  (⟨w.registries.size⟩, { w with registries := w.registries.push { template, belongs } })

/-- The cache of a namespace, made now if it is asked for the first time. -/
def scopedCache [DecidableEq N] (w : World K N V σ B) (r : RegistryId) (ns : N) :
    Option (CacheId × World K N V σ B) :=
  (w.registry? r).map fun registry =>
    match registry.caches.get? ns with
    | some c => (c, w)
    | none =>
      let (c, w) := w.newCache (registry.configFor ns)
      (c, w.setRegistry r { registry with caches := registry.caches.insert ns c })

variable [DecidableEq K] [ToString K]

/-! ### Recording and committing -/

/-- Whether a context accepts a key: an attached one accepts the keys of its parent. -/
def checkKey (w : World K N V σ B) (x : Context K V σ B) (k : K) :
    Option (Except Violation Unit) :=
  match x.parent with
  | none => some (.ok ())
  | some c => (w.cache? c).map (·.checkKey k)

/-- Records a value in a context. The placeholder that was issued for the key, if any, is
resolved before this returns. -/
def record [BEq V] (w : World K N V σ B) (x : ContextId) (k : K) (v : V) (overwrite : Bool) :
    Option (Except Violation Unit × World K N V σ B) := do
  let context ← w.context? x
  match ← w.checkKey context k with
  | .error e => return (.error e, w)
  | .ok () =>
    match context.record k v overwrite with
    | .unchanged => return (.ok (), w)
    | .duplicate => return (.error (.duplicateKey (toString k)), w)
    | .recorded context none => return (.ok (), w.setContext x context)
    | .recorded context (some cell) =>
      return (.ok (), { w.setContext x context with cells := w.cells.fill cell v })

/-- Publishes the recorded values of a context into its parent, all or none. The answer is
whether they were published. The context stays as it is. -/
def commit [BEq V] (w : World K N V σ B) (x : ContextId) :
    Option (Except Violation Bool × World K N V σ B) := do
  let context ← w.context? x
  match context.refusal with
  | some e => return (.error e, w)
  | none =>
    match context.parent with
    | none => return (.error .detachedCommit, w)
    | some c =>
      let (answer, w) ← w.onCache c (·.publish context.recorded)
      return (.ok answer, w)

/-! ### Requests within a pass -/

/-- What becomes of a request for a key within a pass. -/
inductive Lookup (V B : Type) where
  /-- The request is answered at once. -/
  | answered (answer : Except RequestError (Option V))
  /-- This builder has to be called for the key. -/
  | build (builder : B)

/-- Answers a request for a pending key with a fresh placeholder, if the context has a way to
make one. -/
def issuePlaceholder (w : World K N V σ B) (x : ContextId) (context : Context K V σ B) (k : K) :
    Except RequestError (Option V) × World K N V σ B :=
  match context.placeholders with
  | none => (.error (.violation (.unresolvableReentry (toString k))), w)
  | some make =>
    let (cell, cells) := w.cells.alloc
    let ((kind, standIn), client) := make k cell w.client
    let w := { w with cells, client }.countOnParent context .placeholderIssued
    (.ok (some standIn), w.setContext x (context.setEntry k (.placeholderIssued
      { kind, standIn, cell })))

/-- Answers a request for a key from within the context alone: a recorded value, the stand-in
of a key that is in flight, or nothing yet. A key that is requested for the first time is
marked pending. -/
def lookupEntry (w : World K N V σ B) (x : ContextId) (context : Context K V σ B) (k : K) :
    Lookup V B × World K N V σ B :=
  match context.entries.get? k with
  | some (.resolved v) => (.answered (.ok (some v)), w)
  | some (.placeholderIssued p) => (.answered (.ok (some p.standIn)), w)
  | some .pending =>
    let (answer, w) := w.issuePlaceholder x context k
    (.answered answer, w)
  | none =>
    let w := w.setContext x (context.setEntry k .pending)
    match context.builder with
    | none => (.answered (.ok none), w)
    | some b => (.build b, w.countOnParent context .builderInvocation)

/-- Answers a request for a key within a pass: what the parent has published comes first,
then what the pass itself knows. -/
def lookup (w : World K N V σ B) (x : ContextId) (k : K) :
    Option (Lookup V B × World K N V σ B) := do
  let context ← w.context? x
  match context.parent with
  | none => return w.lookupEntry x context k
  | some c =>
    let cache ← w.cache? c
    match cache.published k with
    | .error e => return (.answered (.error (.violation e)), w)
    | .ok (some v) => return (.answered (.ok (some v)), w)
    | .ok none => return w.lookupEntry x context k

end World

end DerivationCache
