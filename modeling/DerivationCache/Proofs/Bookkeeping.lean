import DerivationCache.Proofs.LocalBuilder

/-!
# What a pass does not look at

The counters of a cache and the claims on its keys are kept for requests that come from outside. A
pass adds to some counters, but what it does within its context depends on no counter and on no
claim. A change to a cache that concerns nothing else is hidden from the pass (`Cache.Hidden`), and
commutes with all that the pass does: whether it is made before or after an operation, the operation
has the same answer, and the worlds that come of it are equal (`World.adjust`).

## Main results

* `World.lookup_adjust`, `World.record_adjust`, `World.commit_adjust`: hidden changes commute with
  the operations of a pass.
* `World.answer_adjust`: and with every request that concerns one context alone.
-/

namespace DerivationCache

variable {K N V σ B : Type}

namespace World

/-- The world with one cache changed. Without this cache it stays as it is. -/
def adjust (w : World K N V σ B) (c : CacheId) (f : Cache K V σ B → Cache K V σ B) :
    World K N V σ B :=
  { w with caches := w.caches.modify c.index f }

variable (w : World K N V σ B) (c : CacheId) (f g : Cache K V σ B → Cache K V σ B)

/-- An adjustment of a cache leaves every context alone. -/
@[simp] theorem context?_adjust (x : ContextId) : (w.adjust c f).context? x = w.context? x := rfl

@[simp] theorem setContext_adjust (x : ContextId) (context : Context K V σ B) :
    (w.adjust c f).setContext x context = (w.setContext x context).adjust c f := rfl

/-- An adjustment shows in the adjusted cache and in no other one. -/
theorem cache?_adjust (d : CacheId) :
    (w.adjust c f).cache? d = (w.cache? d).map fun cache => if d = c then f cache else cache := by
  obtain ⟨i⟩ := c
  obtain ⟨j⟩ := d
  simp only [adjust, cache?, Array.getElem?_modify, CacheId.mk.injEq]
  by_cases hij : i = j
  · simp [hij]
  · simp [hij, Ne.symm hij]

/-- The change is made to a cache that is put in its place as well. -/
theorem setCache_adjust (d : CacheId) (cache : Cache K V σ B) :
    (w.adjust c f).setCache d (if d = c then f cache else cache) =
      (w.setCache d cache).adjust c f := by
  obtain ⟨i⟩ := c
  obtain ⟨j⟩ := d
  have hcaches : (w.caches.modify i f).setIfInBounds j (if j = i then f cache else cache) =
      (w.caches.setIfInBounds j cache).modify i f := by
    apply Array.ext_getElem?
    intro l
    simp only [Array.getElem?_modify, Array.getElem?_setIfInBounds, Array.size_modify]
    by_cases hjl : j = l
    · subst hjl
      by_cases hij : i = j
      · by_cases hj : j < w.caches.size <;> simp [hij, hj]
      · by_cases hj : j < w.caches.size <;> simp [hij, Ne.symm hij, hj]
    · simp [hjl]
  simp only [setCache, adjust, CacheId.mk.injEq, hcaches]

/-- Two adjustments of one cache are one. -/
theorem adjust_adjust : (w.adjust c f).adjust c g = w.adjust c fun cache => g (f cache) := by
  have hcaches : (w.caches.modify c.index f).modify c.index g =
      w.caches.modify c.index fun cache => g (f cache) := by
    apply Array.ext_getElem?
    intro l
    simp only [Array.getElem?_modify]
    split <;> simp [Option.map_map, Function.comp_def]
  simp only [adjust, hcaches]

/-- The change is made to the cache that there is. -/
theorem adjust_congr {w : World K N V σ B} {c : CacheId} {f g : Cache K V σ B → Cache K V σ B}
    (h : ∀ cache, w.cache? c = some cache → f cache = g cache) : w.adjust c f = w.adjust c g := by
  have hcaches : w.caches.modify c.index f = w.caches.modify c.index g := by
    apply Array.ext_getElem?
    intro l
    simp only [Array.getElem?_modify]
    split
    · rename_i hl
      subst hl
      exact Option.map_congr h
    · rfl
  simp only [adjust, hcaches]

/-- To replace a cache is to adjust it. -/
theorem setCache_eq_adjust (cache : Cache K V σ B) :
    w.setCache c cache = w.adjust c fun _ => cache := by
  have hcaches : w.caches.setIfInBounds c.index cache = w.caches.modify c.index fun _ => cache := by
    apply Array.ext_getElem?
    intro l
    simp only [Array.getElem?_modify, Array.getElem?_setIfInBounds]
    by_cases hl : c.index = l
    · subst hl
      by_cases hc : c.index < w.caches.size <;> simp [hc]
    · simp [hl]
  simp only [setCache, adjust, hcaches]

/-- A context that is replaced by itself leaves the world as it is. -/
theorem setContext_self {w : World K N V σ B} {x : ContextId} {context : Context K V σ B}
    (h : w.context? x = some context) : w.setContext x context = w := by
  have hcontexts : w.contexts.setIfInBounds x.index context = w.contexts := by
    apply Array.ext_getElem?
    intro l
    simp only [Array.getElem?_setIfInBounds]
    by_cases hl : x.index = l
    · subst hl
      rw [if_pos rfl, ← h, context?]
      split
      · rfl
      · rename_i hx
        rw [Array.getElem?_eq_none (Nat.not_lt.1 hx)]
    · rw [if_neg hl]
  simp only [setContext, hcontexts]

/-- A cache is adjusted by replacing it with what the adjustment makes of it. -/
theorem setCache_apply {w : World K N V σ B} {c : CacheId} {cache : Cache K V σ B}
    (h : w.cache? c = some cache) (f : Cache K V σ B → Cache K V σ B) :
    w.setCache c (f cache) = w.adjust c f := by
  rw [setCache_eq_adjust]
  refine adjust_congr fun cache' hcache' => ?_
  obtain rfl := Option.some.inj (h.symm.trans hcache')
  rfl

/-- Doing something to a cache that there is. -/
theorem onCache_apply {w : World K N V σ B} {c : CacheId} {cache : Cache K V σ B}
    (h : w.cache? c = some cache) (f : Cache K V σ B → Cache K V σ B) :
    (w.onCache c fun cache => ((), f cache)) = some ((), w.adjust c f) := by
  rw [onCache, h]
  exact congrArg (fun w' => some ((), w')) (setCache_apply h f)

end World

/-! ### Hidden changes -/

section Hidden

variable [DecidableEq K] [BEq V]

omit [DecidableEq K] [BEq V] in
/-- What a cache is configured with, has published and remembers. -/
def Cache.contents (cache : Cache K V σ B) : Cache K V σ B :=
  { cache.resetCounters with inFlight := .empty }

/-- A change to a cache that a pass cannot see. -/
structure Cache.Hidden (f : Cache K V σ B → Cache K V σ B) : Prop where
  contents : ∀ cache, (f cache).contents = cache.contents
  count : ∀ cache e, (f cache).count e = f (cache.count e)
  publish : ∀ cache entries,
    (f cache).publish entries = ((cache.publish entries).1, f (cache.publish entries).2)

variable {f : Cache K V σ B → Cache K V σ B}

namespace Cache.Hidden

/-- A hidden change leaves the configuration alone. -/
theorem config (hf : Hidden f) (cache : Cache K V σ B) : (f cache).config = cache.config :=
  congrArg (·.config) (hf.contents cache)

/-- A hidden change leaves the store alone. -/
theorem store (hf : Hidden f) (cache : Cache K V σ B) : (f cache).store = cache.store :=
  congrArg (·.store) (hf.contents cache)

/-- A hidden change does not change which keys are accepted. -/
theorem checkKey [ToString K] (hf : Hidden f) (cache : Cache K V σ B) (k : K) :
    (f cache).checkKey k = cache.checkKey k := by
  rw [Cache.checkKey, Cache.checkKey, Cache.owns, Cache.owns, hf.config]

/-- A hidden change does not change what a cache answers. -/
theorem published [ToString K] (hf : Hidden f) (cache : Cache K V σ B) (k : K) :
    (f cache).published k = cache.published k := by
  rw [Cache.published, Cache.published, hf.checkKey, hf.store]

end Cache.Hidden

namespace World

omit [DecidableEq K] [BEq V] in
/-- The worlds differ at most in what caches have counted, and in who has claimed what. -/
structure SameContents (w w' : World K N V σ B) : Prop where
  caches : ∀ d, (w'.cache? d).map Cache.contents = (w.cache? d).map Cache.contents
  contexts : w'.contexts = w.contexts
  cells : w'.cells = w.cells
  registries : w'.registries = w.registries
  threads : w'.threads = w.threads
  client : w'.client = w.client

variable (hf : Cache.Hidden f) (w : World K N V σ B) (c : CacheId)
include hf

/-- An adjusted world has the same contents as long as the adjustment is hidden. -/
theorem sameContents_adjust : w.SameContents (w.adjust c f) where
  caches d := by
    rw [cache?_adjust, Option.map_map]
    refine Option.map_congr fun cache _ => ?_
    rw [Function.comp_apply]
    split
    · exact hf.contents cache
    · rfl
  contexts := rfl
  cells := rfl
  registries := rfl
  threads := rfl
  client := rfl

/-- A hidden adjustment commutes with counting an event. -/
theorem countOnParent_adjust (context : Context K V σ B) (e : Metrics.Event) :
    (w.adjust c f).countOnParent context e = (w.countOnParent context e).adjust c f := by
  rw [countOnParent, countOnParent]
  cases context.parent with
  | none => rfl
  | some d =>
      dsimp only
      rw [cache?_adjust]
      cases w.cache? d with
      | none => rfl
      | some cache =>
          simp only [Option.map_some]
          rw [← setCache_adjust]
          split
          · rw [hf.count]
          · rfl

/-- A hidden adjustment commutes with making a context. -/
theorem createContext_adjust (d : CacheId) : (w.adjust c f).createContext d =
    (w.createContext d).map fun p => (p.1, p.2.adjust c f) := by
  rw [createContext, createContext, cache?_adjust]
  cases w.cache? d with
  | none => rfl
  | some cache =>
      simp only [Option.map_some]
      have hconfig : (if d = c then f cache else cache).config = cache.config := by
        split
        · exact hf.config cache
        · rfl
      rw [hconfig]
      rfl

variable [ToString K]

/-- A context accepts the same keys after a hidden adjustment. -/
theorem checkKey_adjust (context : Context K V σ B) (k : K) :
    (w.adjust c f).checkKey context k = w.checkKey context k := by
  rw [checkKey, checkKey]
  cases context.parent with
  | none => rfl
  | some d =>
      dsimp only
      rw [cache?_adjust, Option.map_map]
      refine Option.map_congr fun cache _ => ?_
      rw [Function.comp_apply]
      split
      · rw [hf.checkKey]
      · rfl

/-- A hidden adjustment commutes with recording a value. -/
theorem record_adjust (x : ContextId) (k : K) (v : V) (overwrite : Bool) :
    (w.adjust c f).record x k v overwrite =
      (w.record x k v overwrite).map fun p => (p.1, p.2.adjust c f) := by
  simp only [record, context?_adjust, checkKey_adjust hf, bind]
  cases w.context? x with
  | none => rfl
  | some context =>
      simp only [Option.bind_some]
      cases w.checkKey context k with
      | none => rfl
      | some check =>
          cases check with
          | error e => rfl
          | ok _ =>
              simp only [Option.bind_some]
              cases context.record k v overwrite with
              | unchanged => rfl
              | duplicate => rfl
              | recorded context' resolves => cases resolves <;> rfl

/-- A hidden adjustment commutes with a request that is answered from the context. -/
theorem lookupEntry_adjust (x : ContextId) (context : Context K V σ B) (k : K) :
    (w.adjust c f).lookupEntry x context k =
      ((w.lookupEntry x context k).1, (w.lookupEntry x context k).2.adjust c f) := by
  rw [lookupEntry, lookupEntry]
  cases context.entries.get? k with
  | none =>
      simp only [setContext_adjust]
      cases context.builder with
      | none => rfl
      | some b =>
          dsimp only
          rw [countOnParent_adjust hf]
  | some e =>
      cases e with
      | pending =>
          simp only [issuePlaceholder]
          cases context.placeholders with
          | none => rfl
          | some make =>
              have hcount := countOnParent_adjust hf
                { w with
                  cells := w.cells.alloc.2
                  client := (make k w.cells.alloc.1 w.client).2 } c context .placeholderIssued
              rw [World.adjust] at hcount
              simp only [World.adjust, hcount]
              rfl
      | _ => rfl

/-- A hidden adjustment commutes with a request within a pass. -/
theorem lookup_adjust (x : ContextId) (k : K) :
    (w.adjust c f).lookup x k = (w.lookup x k).map fun p => (p.1, p.2.adjust c f) := by
  simp only [lookup, context?_adjust, bind]
  cases w.context? x with
  | none => rfl
  | some context =>
      simp only [Option.bind_some]
      cases context.parent with
      | none => exact congrArg some (lookupEntry_adjust hf w c x context k)
      | some d =>
          dsimp only
          rw [cache?_adjust]
          cases w.cache? d with
          | none => rfl
          | some cache =>
              have hpublished : (if d = c then f cache else cache).published k =
                  cache.published k := by
                split
                · exact hf.published cache k
                · rfl
              simp only [Option.map_some, Option.bind_some, hpublished]
              cases cache.published k with
              | error e => rfl
              | ok found =>
                  cases found with
                  | none => exact congrArg some (lookupEntry_adjust hf w c x context k)
                  | some v => rfl

/-- A hidden adjustment commutes with a commit. -/
theorem commit_adjust (x : ContextId) :
    (w.adjust c f).commit x = (w.commit x).map fun p => (p.1, p.2.adjust c f) := by
  simp only [commit, context?_adjust, bind]
  cases w.context? x with
  | none => rfl
  | some context =>
      simp only [Option.bind_some]
      cases context.refusal with
      | some e => rfl
      | none =>
          cases context.parent with
          | none => rfl
          | some d =>
              dsimp only
              rw [onCache, onCache, cache?_adjust]
              cases w.cache? d with
              | none => rfl
              | some cache =>
                  have hpublish : (if d = c then f cache else cache).publish context.recorded =
                      ((cache.publish context.recorded).1,
                        if d = c then f (cache.publish context.recorded).2
                        else (cache.publish context.recorded).2) := by
                    split
                    · exact hf.publish cache context.recorded
                    · rfl
                  simp only [Option.map_some, Option.bind_some, hpublish, setCache_adjust]
                  rfl

/-- Requests that concern one context alone, its commits included, have the same answers. -/
theorem answer_adjust [DecidableEq N] {x : ContextId} {r : Request K N V σ B}
    (hr : r.Within x ∨ r = .commit x) (hseen : r ≠ .observe) :
    (w.adjust c f).answer r = (w.answer r).map fun p => (p.1, p.2.adjust c f) := by
  rcases hr with hwithin | rfl
  · cases hwithin with
    | apart apart =>
        cases apart with
        | observe => exact absurd rfl hseen
        | setClient client => rfl
        | newCell => rfl
    | published d k =>
        simp only [answer, cache?_adjust, Option.map_map]
        refine Option.map_congr fun cache _ => ?_
        simp only [Function.comp_apply]
        split
        · rw [hf.published]
        · rfl
    | record k v overwrite => exact record_adjust hf w c x k v overwrite
    | recorded k =>
        simp only [answer, context?_adjust, Option.map_map]
        rfl
    | clear =>
        simp only [answer, context?_adjust, Option.map_map]
        rfl
  · exact commit_adjust hf w c x

end World

end Hidden

/-! ### Builders that keep to their context -/

/-- The routine acts on nothing but this context, which it may commit. If it looks at the world, it
looks neither at what caches have counted nor at who has claimed what. -/
inductive Routine.KeepsTo (x : ContextId) : Body K N V σ B → Prop
  | done (result : Except RequestError V) : KeepsTo x (.done result)
  | panic (message : String) : KeepsTo x (.panic message)
  | halt : KeepsTo x .halt
  | perform {request : Request K N V σ B} {next : request.Answer → Body K N V σ B}
      (within : request.Within x ∨ request = .commit x) (unseen : request ≠ .observe)
      (after : ∀ a, KeepsTo x (next a)) : KeepsTo x (.perform request next)
  | observe {next : World K N V σ B → Body K N V σ B}
      (same : ∀ w w', w.SameContents w' → next w' = next w) (after : ∀ w, KeepsTo x (next w)) :
      KeepsTo x (.perform .observe next)
  | build {k : K} {next : Except RequestError (Option V) → Body K N V σ B}
      (after : ∀ answer, KeepsTo x (next answer)) : KeepsTo x (.build x k next)

/-! ### A request in progress -/

section Engaged

variable [DecidableEq K]

namespace Cache

/-- The cache when a request was counted that has to derive, and its pass. -/
def billed (cache : Cache K V σ B) : Cache K V σ B :=
  ((cache.count .getCall).count .getMiss).count .pass

/-- The cache while such a request for the key is in progress and holds the claim. -/
def engaged (cache : Cache K V σ B) (k : K) (thread : ThreadId) : Cache K V σ B :=
  cache.billed.claimed k thread

/-- The cache when such a request for the key has ended: a failure is remembered. -/
def charged (cache : Cache K V σ B) (k : K) : Except RequestError V → Cache K V σ B
  | .ok _ => cache.billed
  | .error e => cache.billed.remember k e

/-- A request in progress is hidden from its pass. -/
theorem engaged_hidden [BEq V] (k : K) (thread : ThreadId) :
    Hidden fun cache : Cache K V σ B => cache.engaged k thread where
  contents _ := rfl
  count _ e := by cases e <;> rfl
  publish cache entries := by
    have hconflicts : (cache.engaged k thread).conflicts = cache.conflicts := rfl
    rw [publish, publish, hconflicts]
    split <;> rfl

variable {cache : Cache K V σ B} {k : K}

/-- A request that remembers no failure gives its claim back. -/
theorem release_engaged (h : cache.inFlight.get? k = none) (thread : ThreadId) :
    (cache.engaged k thread).release k = cache.billed :=
  release_claimed (c := cache.billed) h thread

/-- A request that ends with an error remembers it first, if it is a failure. -/
theorem release_remember_engaged (h : cache.inFlight.get? k = none) (thread : ThreadId)
    (e : RequestError) :
    ((cache.engaged k thread).remember k e).release k = cache.charged k (.error e) := by
  rw [engaged, remember_claimed, charged]
  refine release_claimed ?_ thread
  rw [remember_inFlight]
  exact h

end Cache

end Engaged

end DerivationCache
