import DerivationCache.Routine

/-!
# Views of a world

What a world says can be read through four functions: the published value of a key in a cache
(`World.stored`), the state of a key within a context (`World.keyState`), the cache a context
commits into (`World.parent?`), and the placeholder cells. This module says what the doors
of a store and the replacement of a cache or context do to these views, so that nothing built
on it looks into the arrays.

## Main results

* `Cache.publish_get?`, `Cache.publish_agrees`: a pass that is published adds the values of the
  keys that had none, and agrees with those of the keys that had one.
* `World.commit_true`: a commit that succeeds found no key in flight, and afterwards every
  recorded key is published.
* `World.commit_source`: what is published after a commit was published before it, or was
  recorded in the committed context.
-/

namespace DerivationCache

variable {K N V σ B : Type}

/-! ### Contexts -/

/-- A commit is refused because of every key but those that have a value. -/
theorem Entry.refusal_eq_none_iff [ToString K] {k : K} {e : Entry V} :
    e.refusal k = none ↔ ∃ v, e = .resolved v := by
  cases e <;> simp [refusal]

namespace Context

variable [DecidableEq K]

/-- The recorded values are the resolved entries. -/
theorem mem_recorded (x : Context K V σ B) (k : K) (v : V) :
    (k, v) ∈ x.recorded ↔ x.entries.get? k = some (.resolved v) := by
  rw [recorded, List.mem_filterMap]
  constructor
  · rintro ⟨⟨k', e⟩, hmem, he⟩
    cases e with
    | resolved v' =>
        simp only [Entry.value?, Option.map_some, Option.some.injEq, Prod.mk.injEq] at he
        obtain ⟨rfl, rfl⟩ := he
        exact (x.entries.mem_toList _ _).1 hmem
    | pending => simp [Entry.value?] at he
    | placeholderIssued p => simp [Entry.value?] at he
  · intro h
    exact ⟨(k, .resolved v), (x.entries.mem_toList _ _).2 h, rfl⟩

omit [DecidableEq K] in
/-- No key is recorded twice. -/
theorem nodup_recorded (x : Context K V σ B) : (x.recorded.map Prod.fst).Nodup := by
  refine List.Nodup.sublist ?_ x.entries.nodup
  rw [recorded]
  induction x.entries.toList with
  | nil => exact List.Sublist.slnil
  | cons p rest ih =>
      obtain ⟨k, e⟩ := p
      cases e with
      | resolved v => simpa [Entry.value?] using ih
      | pending => simpa [Entry.value?] using ih.cons k
      | placeholderIssued q => simpa [Entry.value?] using ih.cons k

/-- A commit is not refused if and only if every entry is resolved. -/
theorem refusal_eq_none_iff [ToString K] (x : Context K V σ B) :
    x.refusal = none ↔ ∀ k e, x.entries.get? k = some e → ∃ v, e = .resolved v := by
  rw [refusal, List.findSome?_eq_none_iff]
  constructor
  · intro h k e he
    exact Entry.refusal_eq_none_iff.1 (h (k, e) ((x.entries.mem_toList k e).2 he))
  · rintro h ⟨k, e⟩ hmem
    exact Entry.refusal_eq_none_iff.2 (h k e ((x.entries.mem_toList k e).1 hmem))

end Context

/-! ### Stores -/

namespace Cache

variable [DecidableEq K] [BEq V]

omit [BEq V] [DecidableEq K] in
/-- A key that passes the check is one of the namespace. -/
theorem owns_of_checkKey [ToString K] {c : Cache K V σ B} {k : K} (h : c.checkKey k = .ok ()) :
    c.owns k = true := by
  rw [checkKey] at h
  split at h
  · assumption
  · simp at h

omit [BEq V] in
/-- What a cache answers for a key of its namespace is what it stores. -/
theorem published_ok [ToString K] {c : Cache K V σ B} {k : K} {v : Option V}
    (h : c.published k = .ok v) : c.owns k = true ∧ c.store.get? k = v := by
  cases hk : c.checkKey k with
  | error e => simp [published, hk, bind, Except.bind] at h
  | ok u =>
      refine ⟨owns_of_checkKey hk, ?_⟩
      simpa [published, hk, bind, Except.bind, pure, Except.pure] using h

/-- A direct insertion gives a value to a key of the namespace that had none. -/
theorem insert_get? [ToString K] (c : Cache K V σ B) (k : K) (v : V) (l : K) :
    (c.insert k v).2.store.get? l = c.store.get? l ∨
      (l = k ∧ c.owns k = true ∧ c.store.get? l = none ∧
        (c.insert k v).2.store.get? l = some v) := by
  rw [insert]
  split
  · exact Or.inl rfl
  · rename_i hcheck
    split
    · exact Or.inl rfl
    · rename_i hnone
      by_cases hl : k = l
      · subst hl
        exact Or.inr ⟨rfl, owns_of_checkKey hcheck, hnone, by simp⟩
      · exact Or.inl (by simp [hl])

/-- Inserting a value leaves the configuration as it is. -/
theorem insert_config [ToString K] (c : Cache K V σ B) (k : K) (v : V) :
    (c.insert k v).2.config = c.config := by
  rw [insert]
  split
  · rfl
  · split <;> rfl

/-- Inserting a value leaves the claims as they are. -/
theorem insert_inFlight [ToString K] (c : Cache K V σ B) (k : K) (v : V) :
    (c.insert k v).2.inFlight = c.inFlight := by
  rw [insert]
  split
  · rfl
  · split <;> rfl

/-- Publishing leaves the configuration as it is. -/
theorem publish_config {c c' : Cache K V σ B} {entries : List (K × V)} {b : Bool}
    (h : c.publish entries = (b, c')) : c'.config = c.config := by
  rw [publish] at h
  split at h <;>
    obtain ⟨-, rfl⟩ := Prod.mk.inj h <;>
    rfl

/-- A pass that is turned down leaves the store as it was. -/
theorem publish_false {c c' : Cache K V σ B} {entries : List (K × V)}
    (h : c.publish entries = (false, c')) : c'.store = c.store := by
  rw [publish] at h
  split at h
  · obtain ⟨-, rfl⟩ := Prod.mk.inj h
    rfl
  · simp at h

/-- A published pass agrees with what was published before it. -/
theorem publish_agrees {c c' : Cache K V σ B} {entries : List (K × V)}
    (h : c.publish entries = (true, c')) {k : K} {u v : V} (hmem : (k, v) ∈ entries)
    (hu : c.store.get? k = some u) : (u == v) = true := by
  rw [publish] at h
  split at h
  · simp at h
  · rename_i hany
    have hk : ¬ c.conflicts (k, v) = true := fun hc => hany (List.any_eq_true.2 ⟨_, hmem, hc⟩)
    simpa [conflicts, hu] using hk

/-- A published pass adds its values for the keys that had none. -/
theorem publish_get? {c c' : Cache K V σ B} {entries : List (K × V)}
    (hn : (entries.map Prod.fst).Nodup) (h : c.publish entries = (true, c')) (k : K) :
    c'.store.get? k = (c.store.get? k).or (Table.lookup k entries) := by
  rw [publish] at h
  split at h
  · simp at h
  · obtain ⟨-, rfl⟩ := Prod.mk.inj h
    have hfresh : ((entries.filter fun e => !c.store.contains e.1).map Prod.fst).Nodup :=
      hn.sublist (List.Sublist.map _ List.filter_sublist)
    have hstore : (c.store.insertAll (entries.filter fun e => !c.store.contains e.1)).get? k =
        (c.store.get? k).or (Table.lookup k entries) := by
      rw [Table.get?_insertAll _ hfresh]
      cases hk : c.store.get? k with
      | none =>
          have hlook : Table.lookup k (entries.filter fun e => !c.store.contains e.1) =
              Table.lookup k entries := by
            ext v
            rw [Table.lookup_eq_some_iff_mem hfresh, Table.lookup_eq_some_iff_mem hn]
            simp [Table.contains, hk]
          simp [hlook]
      | some u =>
          have hlook : Table.lookup k (entries.filter fun e => !c.store.contains e.1) = none := by
            rw [Option.eq_none_iff_forall_not_mem]
            intro v hv
            have hmem := (Table.lookup_eq_some_iff_mem hfresh k v).1 hv
            simp [Table.contains, hk] at hmem
          simp [hlook]
    exact hstore

end Cache

/-! ### Worlds -/

namespace World

/-- The cache a context commits into. -/
def parent? (w : World K N V σ B) (x : ContextId) : Option CacheId :=
  (w.context? x).bind (·.parent)

/-- The parent of a context that exists. -/
theorem parent?_of_context? {w : World K N V σ B} {x : ContextId} {context : Context K V σ B}
    (h : w.context? x = some context) : w.parent? x = context.parent := by
  simp [parent?, h]

variable [DecidableEq K]

/-- The key lies in the namespace of the cache. -/
def Owns (w : World K N V σ B) (c : CacheId) (k : K) : Prop :=
  ∃ cache, w.cache? c = some cache ∧ cache.owns k = true

/-- The published value of a key in a cache. -/
def stored (w : World K N V σ B) (c : CacheId) (k : K) : Option V :=
  (w.cache? c).bind (·.store.get? k)

/-- The state of a key within a context. -/
def keyState (w : World K N V σ B) (x : ContextId) (k : K) : Option (Entry V) :=
  (w.context? x).bind (·.entries.get? k)

/-- What is published in a cache that exists. -/
theorem stored_of_cache? {w : World K N V σ B} {c : CacheId} {cache : Cache K V σ B}
    (h : w.cache? c = some cache) (k : K) : w.stored c k = cache.store.get? k := by
  simp [stored, h]

/-- The states of the keys of a context that exists. -/
theorem keyState_of_context? {w : World K N V σ B} {x : ContextId} {context : Context K V σ B}
    (h : w.context? x = some context) (k : K) : w.keyState x k = context.entries.get? k := by
  simp [keyState, h]

@[simp] theorem stored_setContext (w : World K N V σ B) (x : ContextId)
    (context : Context K V σ B) (c : CacheId) (k : K) :
    (w.setContext x context).stored c k = w.stored c k := rfl

/-- Replacing a cache changes what is stored in it, and nothing else. -/
theorem stored_setCache {w : World K N V σ B} {c : CacheId} {old : Cache K V σ B}
    (h : w.cache? c = some old) (cache : Cache K V σ B) (d : CacheId) (k : K) :
    (w.setCache c cache).stored d k = if c = d then cache.store.get? k else w.stored d k := by
  by_cases hcd : c = d
  · subst hcd
    simp [stored, h]
  · simp [stored, hcd]

/-- Bookkeeping on a cache that leaves its store alone changes no published value. -/
theorem stored_setCache_of_store {w : World K N V σ B} {c : CacheId} {old cache : Cache K V σ B}
    (h : w.cache? c = some old) (hs : cache.store = old.store) (d : CacheId) (k : K) :
    (w.setCache c cache).stored d k = w.stored d k := by
  rw [stored_setCache h]
  by_cases hcd : c = d
  · subst hcd
    rw [if_pos rfl, hs, stored_of_cache? h]
  · rw [if_neg hcd]

/-- Replacing a context changes the entries of it, and of no other context. -/
theorem keyState_setContext {w : World K N V σ B} {x : ContextId} {old : Context K V σ B}
    (h : w.context? x = some old) (context : Context K V σ B) (y : ContextId) (k : K) :
    (w.setContext x context).keyState y k =
      if x = y then context.entries.get? k else w.keyState y k := by
  by_cases hxy : x = y
  · subst hxy
    simp [keyState, h]
  · simp [keyState, hxy]

/-- Writing one entry of a context changes the state of one key. -/
theorem keyState_setEntry {w : World K N V σ B} {x : ContextId} {context : Context K V σ B}
    (h : w.context? x = some context) (k : K) (e : Entry V) (y : ContextId) (l : K) :
    (w.setContext x (context.setEntry k e)).keyState y l =
      if y = x ∧ l = k then some e else w.keyState y l := by
  rw [keyState_setContext h]
  by_cases hxy : x = y
  · subst hxy
    by_cases hkl : k = l
    · subst hkl
      simp [Context.setEntry]
    · simp [Context.setEntry, hkl, Ne.symm hkl, keyState_of_context? h]
  · simp [hxy, Ne.symm hxy]

/-! ### Commits -/

/-- No key of the context is in flight. -/
def Ready (w : World K N V σ B) (x : ContextId) : Prop :=
  ∀ k e, w.keyState x k = some e → ∃ v, e = .resolved v

variable [BEq V] [ToString K]

/-- A commit that is decided was made by an attached context with no key in flight, and is
the publication of its recorded values. -/
theorem commit_inv {w w' : World K N V σ B} {x : ContextId} {b : Bool}
    (h : w.commit x = some (.ok b, w')) :
    ∃ context c cache cache', w.context? x = some context ∧ context.parent = some c ∧
      w.cache? c = some cache ∧ w.Ready x ∧
      cache.publish context.recorded = (b, cache') ∧ w' = w.setCache c cache' := by
  simp only [commit, bind, Option.bind_eq_some_iff] at h
  obtain ⟨context, hx, h⟩ := h
  split at h
  · simp at h
  · rename_i href
    split at h
    · simp at h
    · rename_i c hc
      simp only [onCache, Option.map_eq_some_iff, Option.bind_eq_some_iff, Option.some.injEq,
        Prod.mk.injEq, Except.ok.injEq, Option.pure_def] at h
      obtain ⟨-, ⟨cache, hcache, rfl⟩, hb, rfl⟩ := h
      refine ⟨context, c, cache, (cache.publish context.recorded).2, hx, hc, hcache, ?_, ?_, rfl⟩
      · intro k e he
        rw [keyState_of_context? hx] at he
        exact (context.refusal_eq_none_iff.1 href) k e he
      · rw [← hb]

/-- A commit that is decided finds no key in flight, and leaves contexts and cells as they are. -/
theorem commit_ok {w w' : World K N V σ B} {x : ContextId} {b : Bool}
    (h : w.commit x = some (.ok b, w')) :
    ∃ c, w.parent? x = some c ∧ w'.parent? x = some c ∧ w'.cells = w.cells ∧ w.Ready x := by
  obtain ⟨context, c, cache, cache', hx, hc, -, hready, -, rfl⟩ := commit_inv h
  have hparent : w.parent? x = some c := by rw [parent?_of_context? hx, hc]
  exact ⟨c, hparent, hparent, rfl, hready⟩

/-- A commit takes no published value back. -/
theorem commit_keeps {w w' : World K N V σ B} {x : ContextId} {b : Bool}
    (h : w.commit x = some (.ok b, w')) {c : CacheId} {k : K} {v : V}
    (hv : w.stored c k = some v) : w'.stored c k = some v := by
  obtain ⟨context, d, cache, cache', hx, hd, hcache, -, hpub, rfl⟩ := commit_inv h
  cases b with
  | false => rw [stored_setCache_of_store hcache (Cache.publish_false hpub), hv]
  | true =>
      rw [stored_setCache hcache]
      by_cases hdc : d = c
      · subst hdc
        rw [stored_of_cache? hcache] at hv
        rw [if_pos rfl, Cache.publish_get? context.nodup_recorded hpub, hv, Option.some_or]
      · rw [if_neg hdc, hv]

/-- After a commit that succeeds, every recorded key is published, with the recorded value or
one equal to it. -/
theorem commit_true [ReflBEq V] {w w' : World K N V σ B} {x : ContextId} {c : CacheId}
    (h : w.commit x = some (.ok true, w')) (hc : w.parent? x = some c) {k : K} {v : V}
    (hv : w.keyState x k = some (.resolved v)) :
    ∃ u, w'.stored c k = some u ∧ (u == v) = true := by
  obtain ⟨context, d, cache, cache', hx, hd, hcache, -, hpub, rfl⟩ := commit_inv h
  rw [parent?_of_context? hx, hd] at hc
  obtain rfl : d = c := Option.some.inj hc
  rw [keyState_of_context? hx, ← Context.mem_recorded] at hv
  rw [stored_setCache hcache, if_pos rfl, Cache.publish_get? context.nodup_recorded hpub]
  cases hu : cache.store.get? k with
  | none =>
      have hlook := (Table.lookup_eq_some_iff_mem context.nodup_recorded k v).2 hv
      exact ⟨v, by rw [Option.none_or, hlook], ReflBEq.rfl⟩
  | some u => exact ⟨u, rfl, Cache.publish_agrees hpub hv hu⟩

/-- What is published after a commit was published before it, or is a recorded value of the
committed context, none of whose keys was in flight. -/
theorem commit_source {w w' : World K N V σ B} {x : ContextId} {b : Bool}
    (h : w.commit x = some (.ok b, w')) {c : CacheId} {k : K} {u : V}
    (hu : w'.stored c k = some u) :
    w.stored c k = some u ∨
      (w.parent? x = some c ∧ w.Ready x ∧ w.keyState x k = some (.resolved u)) := by
  obtain ⟨context, d, cache, cache', hx, hd, hcache, hready, hpub, rfl⟩ := commit_inv h
  cases b with
  | false =>
      rw [stored_setCache_of_store hcache (Cache.publish_false hpub)] at hu
      exact Or.inl hu
  | true =>
      rw [stored_setCache hcache] at hu
      by_cases hdc : d = c
      · subst hdc
        rw [if_pos rfl, Cache.publish_get? context.nodup_recorded hpub] at hu
        rcases Option.or_eq_some_iff.1 hu with hold | ⟨-, hnew⟩
        · exact Or.inl (by rw [stored_of_cache? hcache, hold])
        · rw [Table.lookup_eq_some_iff_mem context.nodup_recorded, Context.mem_recorded] at hnew
          exact Or.inr ⟨by rw [parent?_of_context? hx, hd], hready,
            by rw [keyState_of_context? hx, hnew]⟩
      · rw [if_neg hdc] at hu
        exact Or.inl hu

/-- A commit that is refused changes nothing. -/
theorem commit_error {w w' : World K N V σ B} {x : ContextId} {e : Violation}
    (h : w.commit x = some (.error e, w')) : w' = w := by
  simp only [commit, bind, Option.bind_eq_some_iff] at h
  obtain ⟨context, -, h⟩ := h
  split at h
  · simp only [Option.pure_def, Option.some.injEq, Prod.mk.injEq] at h
    exact h.2.symm
  · split at h
    · simp only [Option.pure_def, Option.some.injEq, Prod.mk.injEq] at h
      exact h.2.symm
    · simp [onCache, Option.bind_eq_some_iff] at h

end World

end DerivationCache
