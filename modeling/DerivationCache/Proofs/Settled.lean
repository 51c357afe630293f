import DerivationCache.Proofs.Posting

/-!
# Settled keys

A key is settled when a request for it needs no pass: it has a published value, or else a failure
that is replayed. All that follows a settled key is an answer: a request is answered at once, on one
thread or on many, and a thread that has missed the key before it was settled is answered when it
reaches for it, once the key is free.

What requests count is read off one counter at a time (`World.counted`).

## Main results

* `Cache.request_settled`, `Machine.requestAll_settled`: requests for a settled key.
* `Machine.wake_settled`: threads that have missed the key before.
* `Machine.step_race_missed`: threads that miss a key only count.
-/

namespace DerivationCache

/-! ### Counters -/

namespace Metrics.Counters

/-- The counter of an event. -/
def of (c : Counters) : Event → UInt64
  | .getCall => c.getCalls
  | .getHit => c.getHits
  | .getMiss => c.getMisses
  | .pass => c.passes
  | .builderInvocation => c.builderInvocations
  | .placeholderIssued => c.placeholdersIssued
  | .commit => c.commits
  | .commitConflict => c.commitConflicts
  | .failureReplay => c.failureReplays

/-- Counting an event adds one to its own counter, and nothing to the others. -/
theorem of_count (c : Counters) (e e' : Event) :
    (c.count e).of e' = c.of e' + if e' = e then 1 else 0 := by
  cases e <;> cases e' <;> simp [count, of]

end Metrics.Counters

variable {K N V σ B : Type}

namespace Cache

/-- The counters of a cache that has counted an event. -/
@[simp] theorem counters_count (c : Cache K V σ B) (e : Metrics.Event) :
    (c.count e).counters = c.counters.count e := rfl

end Cache

namespace World

variable {w : World K N V σ B} {c : CacheId} {cache old : Cache K V σ B}

/-- What a cache has counted. -/
def counted (w : World K N V σ B) (c : CacheId) (e : Metrics.Event) : UInt64 :=
  ((w.cache? c).map (·.counters.of e)).getD 0

/-- What a world has counted on a cache is what the cache has counted. -/
theorem counted_of_cache? (h : w.cache? c = some cache) (e : Metrics.Event) :
    w.counted c e = cache.counters.of e := by
  rw [counted, h, Option.map_some, Option.getD_some]

/-- Replacing a cache changes what is counted in one place. -/
theorem counted_setCache (h : w.cache? c = some old) (cache : Cache K V σ B) (d : CacheId)
    (e : Metrics.Event) :
    (w.setCache c cache).counted d e = if d = c then cache.counters.of e else w.counted d e := by
  rw [counted, cache?_setCache]
  by_cases hcd : c = d
  · subst hcd
    simp [h]
  · rw [if_neg hcd, if_neg (Ne.symm hcd)]
    rfl

/-- The counters are in the caches. -/
theorem counted_congr {w' : World K N V σ B} (h : w'.caches = w.caches) :
    w'.counted = w.counted := by
  funext c e
  rw [counted, counted, cache?, cache?, h]

end World

/-! ### Settled keys of a cache -/

variable [DecidableEq K]

namespace Cache

/-- What every request for the key is answered with, without a pass. -/
inductive Settled (c : Cache K V σ B) (k : K) : Except RequestError V → Prop
  | published (v : V) (stored : c.store.get? k = some v) : Settled c k (.ok v)
  | failed (f : Failure) (unpublished : c.store.get? k = none)
      (replayable : c.replayable k = some f) : Settled c k (.error (.failure f))

variable {c c' : Cache K V σ B} {k : K} {a : Except RequestError V}

/-- The counters do not matter for it. -/
theorem Settled.congr (h : c.Settled k a) (hsame : c'.resetCounters = c.resetCounters) :
    c'.Settled k a := by
  have hstore : c'.store = c.store := congrArg (·.store) hsame
  have hreplayable := replayable_of_resetCounters hsame k
  cases h with
  | published v stored => exact .published v (by rw [hstore, stored])
  | failed f unpublished replayable =>
      exact .failed f (by rw [hstore, unpublished]) (by rw [hreplayable, replayable])

/-- A failure can be replayed only where failures are remembered. -/
theorem replayable_eq_some_iff {f : Failure} :
    c.replayable k = some f ↔ c.config.cachesFailures = true ∧ c.failures.get? k = some f := by
  rw [replayable]
  cases c.config.cachesFailures <;> simp

/-- A failure that can be replayed is replayed, and counted. -/
theorem replay_of_replayable {f : Failure} (h : c.replayable k = some f) :
    c.replay k = (some f, c.count .failureReplay) := by
  obtain ⟨hcaches, hmemo⟩ := replayable_eq_some_iff.1 h
  rw [replay, if_pos hcaches, hmemo]

/-- If there is no failure that can be replayed, nothing happens. -/
theorem replay_of_unreplayable (h : c.replayable k = none) : c.replay k = (none, c) :=
  replay_of_forgotten fun hcaches => by rwa [replayable, if_pos hcaches] at h

/-- A request for a settled key. -/
theorem request_settled [ToString K] (howns : c.owns k = true) (h : c.Settled k a) :
    ∃ c', c.request k = (some a, c') ∧ c'.resetCounters = c.resetCounters := by
  cases h with
  | published v stored => exact request_published howns stored
  | failed f unpublished replayable =>
      obtain ⟨hcaches, hmemo⟩ := replayable_eq_some_iff.1 replayable
      exact request_remembered howns unpublished hcaches hmemo

/-- The number of failures that are replayed in an answer. -/
def replays : Except RequestError V → UInt64
  | .ok _ => 0
  | .error _ => 1

/-- A thread that looks again finds the key settled, and a replayed failure is counted. -/
theorem recheck_settled (h : c.Settled k a) :
    ∃ c', c.recheck k = (some a, c') ∧ c'.resetCounters = c.resetCounters ∧
      ∀ e, c'.counters.of e = c.counters.of e + if e = .failureReplay then replays a else 0 := by
  cases h with
  | published v stored => exact ⟨c, by rw [recheck, stored], rfl, fun e => by simp [replays]⟩
  | failed f unpublished replayable =>
      refine ⟨c.count .failureReplay, ?_, rfl, fun e => Metrics.Counters.of_count _ _ e⟩
      rw [recheck, unpublished]
      simp only [replay_of_replayable replayable]

/-- A request that misses the key is counted as a call and as a miss. -/
theorem request_of_missed [ToString K] (h : c.Reads k none) :
    c.request k = (none, (c.count .getCall).count .getMiss) := by
  cases h with
  | missed owns unpublished unreplayable builder =>
      have hcheck : c.checkKey k = .ok () := if_pos owns
      have hmissed : (c.count .getCall).store.get? k = none := unpublished
      have hreplay : (c.count .getCall).replay k = (none, c.count .getCall) :=
        replay_of_unreplayable unreplayable
      have hreader : ¬ ((c.count .getCall).count .getMiss).isReadOnly = true := by
        rw [isReadOnly, Option.isNone_iff_eq_none, ← ne_eq, ← Option.isSome_iff_ne_none]
        exact builder
      rw [request, hcheck]
      simp only [hmissed, hreplay, if_neg hreader]

end Cache

/-! ### Threads that request one key -/

/-- A request has its outcome, or the next of several threads wakes up. No pass is concerned. -/
def Focus.Between : Focus K N V σ B → Prop
  | .deliver .. => True
  | .wake .. => True
  | _ => False

namespace Focus.Between

omit [DecidableEq K]

variable {focus : Focus K N V σ B} (h : focus.Between)

include h

/-- Between two passes none is running. -/
theorem passes_eq_nil : focus.passes = [] := by
  cases focus with
  | deliver c k r receiver => rfl
  | wake c k waiting outcomes next => rfl
  | _ => exact h.elim

/-- Between two passes no key is requested within one. -/
theorem not_ask (x : ContextId) (k : K) (asker : Asker K N V σ B) : focus ≠ .ask x k asker := by
  rintro rfl
  exact h

/-- Between two passes no routine is running. -/
theorem not_run (b : Body K N V σ B) : focus ≠ .run b := by
  rintro rfl
  exact h

end Focus.Between

namespace Machine

variable [ToString K] {c : CacheId} {k : K} {cache : Cache K V σ B} {a : Except RequestError V}

/-- All threads that request a settled key are answered at once. -/
theorem requestAll_settled (howns : cache.owns k = true) (h : cache.Settled k a)
    (threads : List ThreadId) :
    ∃ cache', requestAll k threads cache =
        ((List.replicate threads.length (.returned a), []), cache') ∧
      cache'.resetCounters = cache.resetCounters := by
  induction threads generalizing cache with
  | nil => exact ⟨cache, rfl, rfl⟩
  | cons t rest ih =>
      obtain ⟨cache₁, hrequest, hsame⟩ := Cache.request_settled howns h
      have howns₁ : cache₁.owns k = true := by
        have hconfig : cache₁.config = cache.config := congrArg (·.config) hsame
        rw [Cache.owns, hconfig]
        exact howns
      obtain ⟨cache', hrest, hsame'⟩ := ih howns₁ (h.congr hsame)
      refine ⟨cache', ?_, hsame'.trans hsame⟩
      simp only [requestAll, hrequest, hrest]
      rfl

/-- All threads that miss a key have to wait, and each is counted as a call and as a miss. -/
theorem requestAll_missed (h : cache.Reads k none) (threads : List ThreadId) :
    ∃ cache', requestAll k threads cache = (([], threads), cache') ∧
      cache'.resetCounters = cache.resetCounters ∧
      ∀ e, cache'.counters.of e = cache.counters.of e +
        if e = .getCall ∨ e = .getMiss then UInt64.ofNat threads.length else 0 := by
  induction threads generalizing cache with
  | nil => exact ⟨cache, rfl, rfl, fun e => by simp⟩
  | cons t rest ih =>
      have hrequest := Cache.request_of_missed h
      have hcounted : ((cache.count .getCall).count .getMiss).Reads k none := h.congr rfl
      obtain ⟨cache', hrest, hsame, hcounted⟩ := ih hcounted
      refine ⟨cache', ?_, hsame, fun e => ?_⟩
      · simp only [requestAll, hrequest, hrest]
      · rw [hcounted, Cache.counters_count, Cache.counters_count, Metrics.Counters.of_count,
          Metrics.Counters.of_count, List.length_cons, UInt64.ofNat_add]
        cases e <;> simp <;> grind

variable [DecidableEq N] [BEq V] (body : B → ContextId → K → Body K N V σ B)
  {w : World K N V σ B}

/-- All threads of a race for a key that has to be derived miss it. -/
theorem step_race_missed (hcache : w.cache? c = some cache) (h : cache.Reads k none) (n : Nat)
    (next : List (Outcome V) → Body K N V σ B) (stack : List (Frame K N V σ B)) :
    ∃ w', (⟨w, .run (.race c k n next), stack⟩ : Machine K N V σ B).step body =
        some ⟨w', .wake c k ((List.range n).map fun i => ⟨w.threads + i⟩) [] next, stack⟩ ∧
      w'.ledger = w.ledger ∧
      ∀ e, w'.counted c e =
        w.counted c e + if e = .getCall ∨ e = .getMiss then UInt64.ofNat n else 0 := by
  obtain ⟨cache', hrequest, hsame, hcounted⟩ :=
    requestAll_missed h ((List.range n).map fun i => (⟨w.threads + i⟩ : ThreadId))
  refine ⟨{ w.setCache c cache' with threads := w.threads + n }, ?_,
    World.ledger_setCache_of_eq hcache hsame, fun e => ?_⟩
  · simp only [step, stepRun, World.onCache, hcache, Option.map_some, bind, Option.bind_some,
      hrequest]
    rfl
  · have hcount := World.counted_setCache hcache cache' c e
    rw [if_pos rfl, hcounted, List.length_map, List.length_range] at hcount
    rw [World.counted_of_cache? hcache]
    exact hcount

/-- A thread that reaches for a free key which has been settled meanwhile gets the answer, and gives
the key back. -/
theorem step_wake_settled (hcache : w.ledger c = some cache) (hfree : cache.inFlight.get? k = none)
    (h : cache.Settled k a) (thread : ThreadId) (waiting : List ThreadId)
    (outcomes : List (Outcome V)) (next : List (Outcome V) → Body K N V σ B)
    (stack : List (Frame K N V σ B)) :
    ∃ w', (⟨w, .wake c k (thread :: waiting) outcomes next, stack⟩ :
        Machine K N V σ B).step body =
        some ⟨w', .deliver c k (.returned a) (.crowd waiting outcomes next), stack⟩ ∧
      w'.ledger = w.ledger ∧
      ∀ e, w'.counted c e = w.counted c e + if e = .failureReplay then Cache.replays a else 0 := by
  obtain ⟨current, hcurrent, rfl⟩ := World.cache_of_ledger hcache
  have hclaim : current.claim k thread = .claimed (current.claimed k thread) :=
    Cache.claim_eq_claimed_iff.2 ⟨hfree, rfl⟩
  have hsettled : (current.claimed k thread).Settled k a := by
    cases h with
    | published v stored => exact .published v stored
    | failed f unpublished replayable => exact .failed f unpublished replayable
  obtain ⟨found, hrecheck, hsame, hcounted⟩ := Cache.recheck_settled hsettled
  refine ⟨w.setCache c (found.release k), ?_, ?_, fun e => ?_⟩
  · simp only [step, claim, hcurrent, bind, Option.bind_some, hclaim, hrecheck]
    rfl
  · exact World.ledger_setCache_of_eq hcurrent (Cache.release_resetCounters hfree hsame)
  · rw [World.counted_setCache hcurrent, if_pos rfl, World.counted_of_cache? hcurrent]
    exact hcounted e

/-- Threads that have missed a key which has been settled meanwhile all get the answer. -/
theorem wake_settled (hcache : w.ledger c = some cache) (hfree : cache.inFlight.get? k = none)
    (h : cache.Settled k a) (waiting : List ThreadId) (outcomes : List (Outcome V))
    (next : List (Outcome V) → Body K N V σ B) (stack : List (Frame K N V σ B)) :
    ∃ ms w', Path body ⟨w, .wake c k waiting outcomes next, stack⟩ ms
        ⟨w', .run (next (outcomes ++ List.replicate waiting.length (.returned a))), stack⟩ ∧
      w'.ledger = w.ledger ∧
      (∀ e, w'.counted c e = w.counted c e +
        if e = .failureReplay then UInt64.ofNat waiting.length * Cache.replays a else 0) ∧
      ∀ m ∈ ms, m.stack = stack ∧ m.focus.Between := by
  induction waiting generalizing w outcomes with
  | nil =>
      refine ⟨_, w, .one ?_, rfl, fun e => by simp, fun m hm => ?_⟩
      · simp [step, goto]
      · obtain rfl := List.mem_singleton.1 hm
        exact ⟨rfl, trivial⟩
  | cons thread waiting ih =>
      obtain ⟨w₁, hstep, hledger, hcounted⟩ :=
        step_wake_settled body hcache hfree h thread waiting outcomes next stack
      obtain ⟨ms, w', hpath, hledger', hcounted', hms⟩ :=
        ih (w := w₁) (by rw [hledger, hcache]) (outcomes ++ [.returned a])
      rw [← List.append_cons, ← List.replicate_succ] at hpath
      refine ⟨_, w', .step hstep (.step rfl hpath), hledger'.trans hledger, fun e => ?_,
        fun m hm => ?_⟩
      · rw [hcounted', hcounted, List.length_cons, UInt64.ofNat_add]
        split <;> grind
      · rcases List.mem_cons.1 hm with rfl | hm
        · exact ⟨rfl, trivial⟩
        · rcases List.mem_cons.1 hm with rfl | hm
          · exact ⟨rfl, trivial⟩
          · exact hms m hm

end Machine

end DerivationCache
