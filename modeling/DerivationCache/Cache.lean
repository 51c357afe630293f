import DerivationCache.Error
import DerivationCache.Identity
import DerivationCache.Metrics.Counters
import DerivationCache.Placeholder
import DerivationCache.Table

/-!
# Caches

A `Cache` is the shared store of derived values of one namespace of keys: the published
entries, a memo of failures, and the claims of the requests that are deriving a key at this
moment. Published entries are never replaced and never taken back.

Values come in by two doors. `Cache.insert` inserts one pair at once. `Cache.publish` takes
all the entries of a generation pass or none of them. Both refuse a value that differs from
the published one, and both forget the remembered failure of every key that they newly fill.

The rest of a request for a derived value is kept here too, cut at the points where another
party can act: `Cache.request` is what happens before the key is claimed, `Cache.claim` and
`Cache.recheck` decide whether a pass is needed at all.
-/

namespace DerivationCache

variable {K V σ B : Type}

/-- How a cache derives values. It is fixed when the cache is made. -/
structure Config (K V σ B : Type) where
  /-- Makes the builder of one pass. Without it the cache is read-only. -/
  makeBuilder : Option (σ → B × σ) := none
  /-- Makes stand-ins for keys that are requested while they are being derived. -/
  placeholders : Option (PlaceholderFactory K V σ) := none
  /-- The keys of this cache's namespace, all keys if absent. -/
  scope : Option (K → Bool) := none
  /-- Whether a failed derivation is remembered and replayed. -/
  cachesFailures : Bool := false

/-- A shared store of derived values. -/
structure Cache (K V σ B : Type) where
  config : Config K V σ B
  /-- The published entries. -/
  store : Table K V := .empty
  /-- The failures that are replayed instead of deriving the key again. -/
  failures : Table K Failure := .empty
  /-- The keys that are being derived, each with the thread that claimed it. -/
  inFlight : Table K ThreadId := .empty
  counters : Metrics.Counters := {}

/-- What a thread that wants to derive a key meets. -/
inductive ClaimOutcome (C : Type) where
  /-- The key was free and is now held by the thread. -/
  | claimed (cache : C)
  /-- The thread itself holds the key further up its stack. -/
  | reentrant
  /-- Another thread holds the key and has to finish first. -/
  | held (owner : ThreadId)

namespace Cache

/-- The cache of a configuration, with nothing in it. -/
def ofConfig (config : Config K V σ B) : Cache K V σ B := { config }

/-- Counts one event. -/
def count (c : Cache K V σ B) (e : Metrics.Event) : Cache K V σ B :=
  { c with counters := c.counters.count e }

/-- Whether a key lies in the namespace of the cache. -/
def owns (c : Cache K V σ B) (k : K) : Bool :=
  match c.config.scope with
  | none => true
  | some owns => owns k

/-- Whether the cache has no way to derive a value. -/
def isReadOnly (c : Cache K V σ B) : Bool := c.config.makeBuilder.isNone

/-- Forgets every remembered failure. -/
def clearFailures (c : Cache K V σ B) : Cache K V σ B := { c with failures := .empty }

/-- Sets every counter back to zero. -/
def resetCounters (c : Cache K V σ B) : Cache K V σ B := { c with counters := {} }

/-- The reading of the cache at this moment. -/
def snapshot (c : Cache K V σ B) : Metrics.Snapshot :=
  c.counters.snapshot c.store.size c.failures.size

variable [DecidableEq K]

/-- Whether a value is published for the key. A foreign key is never published. -/
def contains (c : Cache K V σ B) (k : K) : Bool := c.store.contains k

/-- Refuses keys outside the namespace of the cache. -/
def checkKey [ToString K] (c : Cache K V σ B) (k : K) : Except Violation Unit :=
  if c.owns k then .ok () else .error (.foreignKey (toString k))

/-- The published value of a key. -/
def published [ToString K] (c : Cache K V σ B) (k : K) : Except Violation (Option V) := do
  c.checkKey k
  return c.store.get? k

/-! ### Insertion -/

/-- Inserts a value directly. The answer is whether the published value is now this one. -/
def insert [BEq V] [ToString K] (c : Cache K V σ B) (k : K) (v : V) :
    Except Violation Bool × Cache K V σ B :=
  match c.checkKey k with
  | .error e => (.error e, c)
  | .ok () =>
    match c.store.get? k with
    | some existing => (.ok (existing == v), c)
    | none =>
      (.ok true, { c with store := c.store.insert k v, failures := c.failures.erase k })

/-- Whether the entry contradicts a published one. -/
def conflicts [BEq V] (c : Cache K V σ B) (entry : K × V) : Bool :=
  match c.store.get? entry.1 with
  | none => false
  | some existing => !(existing == entry.2)

/-- Publishes entries, all or none. The answer is whether they were published. -/
def publish [BEq V] (c : Cache K V σ B) (entries : List (K × V)) : Bool × Cache K V σ B :=
  if entries.any c.conflicts then
    (false, c.count .commitConflict)
  else
    let fresh := entries.filter fun entry => !c.store.contains entry.1
    (true, ({ c with
      store := c.store.insertAll fresh
      failures := c.failures.eraseAll (fresh.map Prod.fst) }).count .commit)

/-! ### Remembered failures -/

/-- The remembered failure of a key, which is counted as replayed. -/
def replay (c : Cache K V σ B) (k : K) : Option Failure × Cache K V σ B :=
  if c.config.cachesFailures then
    match c.failures.get? k with
    | some f => (some f, c.count .failureReplay)
    | none => (none, c)
  else (none, c)

/-- Remembers the failure of a key, if this cache remembers failures. The first one stays. -/
def remember (c : Cache K V σ B) (k : K) : RequestError → Cache K V σ B
  | .failure f =>
    if c.config.cachesFailures && !c.failures.contains k then
      { c with failures := c.failures.insert k f }
    else c
  | _ => c

/-! ### Requests for a derived value -/

/-- The part of a request that comes before the key is claimed. The answer is `none` when the
value has to be derived. -/
def request [ToString K] (c : Cache K V σ B) (k : K) :
    Option (Except RequestError V) × Cache K V σ B :=
  match c.checkKey k with
  | .error e => (some (.error (.violation e)), c)
  | .ok () =>
    let c := c.count .getCall
    match c.store.get? k with
    | some v => (some (.ok v), c.count .getHit)
    | none =>
      match c.replay k with
      | (some f, c) => (some (.error (.failure f)), c)
      | (none, c) =>
        let c := c.count .getMiss
        if c.isReadOnly then (some (.error (.violation (.readOnlyCache (toString k)))), c)
        else (none, c)

/-- A thread reaches for the key that it wants to derive. -/
def claim (c : Cache K V σ B) (k : K) (thread : ThreadId) : ClaimOutcome (Cache K V σ B) :=
  match c.inFlight.get? k with
  | none => .claimed { c with inFlight := c.inFlight.insert k thread }
  | some owner => if owner = thread then .reentrant else .held owner

/-- Gives the claim of a key back. -/
def release (c : Cache K V σ B) (k : K) : Cache K V σ B :=
  { c with inFlight := c.inFlight.erase k }

/-- Looks again after the key was claimed: it may have been published, or have failed,
between the miss and the claim. -/
def recheck (c : Cache K V σ B) (k : K) : Option (Except RequestError V) × Cache K V σ B :=
  match c.store.get? k with
  | some v => (some (.ok v), c)
  | none =>
    match c.replay k with
    | (some f, c) => (some (.error (.failure f)), c)
    | (none, c) => (none, c)

end Cache

end DerivationCache
