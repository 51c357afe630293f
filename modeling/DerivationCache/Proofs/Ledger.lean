import DerivationCache.Proofs.View
import Mathlib.Logic.Function.Basic

/-!
# Ledgers

The ledger of a world is what its caches hold: their configurations, published values,
remembered failures and claims. The counters are left out, since most of what is done to a cache
only counts. Two worlds with one ledger agree on all that a later request can observe in a cache.

## Main results

* `World.ledger_setCache`: replacing a cache changes the ledger in one place.
* `World.cache_of_ledger`: a cache is known from the ledger up to its counters.
-/

namespace DerivationCache

variable {K N V σ B : Type}

namespace World

/-- The caches of a world, their counters left out. -/
def ledger (w : World K N V σ B) (c : CacheId) : Option (Cache K V σ B) :=
  (w.cache? c).map Cache.resetCounters

variable {w w' : World K N V σ B} {c : CacheId} {cache old : Cache K V σ B}

/-- A cache stands in the ledger without its counters. -/
theorem ledger_of_cache? (h : w.cache? c = some cache) :
    w.ledger c = some cache.resetCounters := by
  rw [ledger, h, Option.map_some]

/-- A cache is known from the ledger up to its counters. -/
theorem cache_of_ledger (h : w.ledger c = some old) :
    ∃ cache, w.cache? c = some cache ∧ cache.resetCounters = old :=
  Option.map_eq_some_iff.1 h

/-- The ledger depends on the caches alone. -/
theorem ledger_congr (h : w'.caches = w.caches) : w'.ledger = w.ledger := by
  funext d
  rw [ledger, ledger, cache?, cache?, h]

/-- Replacing a cache changes the ledger in one place. -/
theorem ledger_setCache (h : w.cache? c = some old) (cache : Cache K V σ B) :
    (w.setCache c cache).ledger = Function.update w.ledger c (some cache.resetCounters) := by
  funext d
  by_cases hcd : c = d
  · subst hcd
    simp [ledger, h]
  · rw [Function.update_of_ne (Ne.symm hcd), ledger, ledger, cache?_setCache, if_neg hcd]

/-- Counting is not seen in the ledger. -/
theorem ledger_setCache_of_eq (h : w.cache? c = some old)
    (hsame : cache.resetCounters = old.resetCounters) :
    (w.setCache c cache).ledger = w.ledger := by
  rw [ledger_setCache h, hsame, ← ledger_of_cache? h, Function.update_eq_self]

/-- Counting on the parent is not seen in the ledger. -/
theorem ledger_countOnParent (w : World K N V σ B) (context : Context K V σ B)
    (e : Metrics.Event) : (w.countOnParent context e).ledger = w.ledger := by
  rw [countOnParent]
  split
  · rfl
  · split
    · rfl
    · rename_i hcache
      exact ledger_setCache_of_eq hcache rfl

variable [DecidableEq K]

/-- The remembered failure of a key in a cache. -/
def remembered (w : World K N V σ B) (c : CacheId) (k : K) : Option Failure :=
  (w.cache? c).bind (·.failures.get? k)

/-- The remembered failures of a world are those of its caches. -/
theorem remembered_of_cache? (h : w.cache? c = some cache) (k : K) :
    w.remembered c k = cache.failures.get? k := by
  rw [remembered, h, Option.bind_some]

/-- Published values are read off the ledger. -/
theorem stored_eq_ledger (w : World K N V σ B) (c : CacheId) (k : K) :
    w.stored c k = (w.ledger c).bind (·.store.get? k) := by
  cases h : w.cache? c <;> simp [stored, ledger, h, Cache.resetCounters]

/-- Remembered failures are read off the ledger. -/
theorem remembered_eq_ledger (w : World K N V σ B) (c : CacheId) (k : K) :
    w.remembered c k = (w.ledger c).bind (·.failures.get? k) := by
  cases h : w.cache? c <;> simp [remembered, ledger, h, Cache.resetCounters]

/-- What is remembered can be read off the ledger. -/
theorem remembered_of_ledger (h : w'.ledger c = w.ledger c) (k : K) :
    w'.remembered c k = w.remembered c k := by
  rw [remembered_eq_ledger, remembered_eq_ledger, h]

end World

end DerivationCache
