import DerivationCache.Proofs.CommitDecision
import DerivationCache.Proofs.Operation

/-!
# Two ways to publish

A list of entries gets into a cache through one of two doors. The entries are added to a fresh
context, and the context is committed; or each of them is inserted by itself. Neither replaces a
published value, and both forget the remembered failure of a key that they give a value.

A commit is all or nothing, and an insertion decides about one entry. With no key listed twice, one
insertion has no influence on the answer to another one, so each entry is answered by the cache as
it was at first, and in every order. The commit succeeds if and only if all of them are welcome.

What equality has to be for this is symmetric and transitive. A value that differs from itself is
turned down at both doors.

## Main results

* `World.addAll_added`: what adding entries to a context comes to.
* `World.insertAll_takes`: what inserting entries one by one comes to.
* `two_doors_agree`: both doors let the same lists in, and leave the same values and failures.
-/

namespace DerivationCache

variable {K N V σ B : Type} [DecidableEq K]

/-! ### Lists of entries -/

namespace Table

/-- An entry of the first list comes before one of the second list. -/
theorem lookup_append (k : K) (l l' : List (K × V)) :
    lookup k (l ++ l') = (lookup k l).or (lookup k l') := by
  induction l with
  | nil => rfl
  | cons p l ih =>
      obtain ⟨k₀, v₀⟩ := p
      by_cases hk : k₀ = k
      · simp [lookup, hk]
      · simp [lookup, hk, ih]

/-- What is looked up is an entry of the list. -/
theorem mem_of_lookup {k : K} {v : V} {l : List (K × V)} (h : lookup k l = some v) :
    (k, v) ∈ l := by
  induction l with
  | nil => simp [lookup] at h
  | cons p l ih =>
      obtain ⟨k₀, v₀⟩ := p
      by_cases hk : k₀ = k
      · obtain rfl : v₀ = v := by simpa [lookup, hk] using h
        rw [hk]
        exact List.mem_cons_self ..
      · exact List.mem_cons_of_mem _ (ih (by simpa [lookup, hk] using h))

/-- Every key of the list is found. -/
theorem exists_lookup_of_mem {k : K} {v : V} {l : List (K × V)} (h : (k, v) ∈ l) :
    ∃ u, lookup k l = some u := by
  induction l with
  | nil => simp at h
  | cons p l ih =>
      obtain ⟨k₀, v₀⟩ := p
      by_cases hk : k₀ = k
      · exact ⟨v₀, by simp [lookup, hk]⟩
      · have hmem : (k, v) ∈ l := by simpa [Ne.symm hk] using h
        obtain ⟨u, hu⟩ := ih hmem
        exact ⟨u, by simpa [lookup, hk] using hu⟩

/-- Pairs with different keys are found in every order. -/
theorem lookup_of_perm {l l' : List (K × V)} (hperm : l'.Perm l) (h : (l.map Prod.fst).Nodup)
    (k : K) : lookup k l' = lookup k l := by
  have h' : (l'.map Prod.fst).Nodup := (hperm.map Prod.fst).nodup_iff.2 h
  ext v
  rw [lookup_eq_some_iff_mem h', lookup_eq_some_iff_mem h, hperm.mem_iff]

end Table

section Entries

variable [BEq V]

omit [DecidableEq K] in
/-- The list has two different values for the key. -/
def Doubles (entries : List (K × V)) (k : K) : Prop :=
  ∃ u v, [(k, u), (k, v)].Sublist entries ∧ (u == v) = false

omit [DecidableEq K] in
/-- The values that the list has for one key are all equal. -/
def Consistent (entries : List (K × V)) : Prop :=
  entries.Pairwise fun p q => p.1 = q.1 → (p.2 == q.2) = true

variable {entries : List (K × V)} {k : K} {u v : V}

omit [DecidableEq K] in
/-- A consistent list has no two different values for one key. -/
theorem Consistent.not_doubles (h : Consistent entries) : ¬ Doubles entries k := by
  rintro ⟨u, v, hsub, hdiffer⟩
  have hequal : (u == v) = true := List.pairwise_iff_forall_sublist.1 h hsub rfl
  simp [hequal] at hdiffer

omit [DecidableEq K] in
/-- A list without repeated keys has no two values for one key. -/
theorem not_doubles_of_nodup (h : (entries.map Prod.fst).Nodup) : ¬ Doubles entries k := by
  rintro ⟨u, v, hsub, -⟩
  have hpair := h.sublist (hsub.map Prod.fst)
  simp at hpair

/-- The first value of a key is equal to every later one. -/
theorem Consistent.first_eq (h : Consistent entries) {f : V} (hf : Table.lookup k entries = some f)
    (hu : (k, u) ∈ entries) : u = f ∨ (f == u) = true := by
  induction entries with
  | nil => simp at hu
  | cons p entries ih =>
      obtain ⟨k₀, v₀⟩ := p
      obtain ⟨hfirst, hrest⟩ := List.pairwise_cons.1 h
      by_cases hk : k₀ = k
      · obtain rfl : v₀ = f := by simpa [Table.lookup, hk] using hf
        rcases List.mem_cons.1 hu with hu | hu
        · exact Or.inl (Prod.mk.inj hu).2
        · exact Or.inr (hfirst _ hu hk)
      · rcases List.mem_cons.1 hu with hu | hu
        · exact absurd (Prod.mk.inj hu).1.symm hk
        · exact ih hrest (by simpa [Table.lookup, hk] using hf) hu

/-- A value that is equal to the first one of its key can be listed as well. -/
theorem Consistent.snoc [PartialEquivBEq V] (h : Consistent entries)
    (hv : ∀ f, Table.lookup k entries = some f → (f == v) = true) :
    Consistent (entries ++ [(k, v)]) := by
  refine List.pairwise_append.2 ⟨h, List.pairwise_singleton .., ?_⟩
  rintro ⟨l, u⟩ hu q hq rfl
  obtain rfl : q = (k, v) := by simpa using hq
  obtain ⟨f, hf⟩ := Table.exists_lookup_of_mem hu
  rcases h.first_eq hf hu with rfl | hfu
  · exact hv _ hf
  · exact PartialEquivBEq.trans (PartialEquivBEq.symm hfu) (hv f hf)

end Entries

/-! ### What a cache takes in -/

variable [BEq V] [ToString K]

namespace World

/-- The cache has taken the entries in: those of its keys without a value have got the listed one,
and their failures are forgotten. -/
structure Takes (w : World K N V σ B) (c : CacheId) (entries : List (K × V))
    (w' : World K N V σ B) : Prop where
  stored : ∀ k, w'.stored c k = (w.stored c k).or (Table.lookup k entries)
  remembered : ∀ k, w'.remembered c k =
    if w.stored c k = none ∧ (Table.lookup k entries).isSome = true then none
    else w.remembered c k
  others : ∀ d, d ≠ c → w'.ledger d = w.ledger d

namespace Takes

variable {w w₁ w' : World K N V σ B} {c : CacheId} {entries later : List (K × V)}

omit [BEq V] [ToString K] in
/-- No entries change nothing. -/
theorem nil (w : World K N V σ B) (c : CacheId) : w.Takes c [] w where
  stored k := (Option.or_none ..).symm
  remembered k := by simp [Table.lookup]
  others _ _ := rfl

omit [BEq V] [ToString K] in
/-- Entries that are taken in after others. -/
theorem append (h : w.Takes c entries w₁) (h' : w₁.Takes c later w') :
    w.Takes c (entries ++ later) w' where
  stored k := by rw [h'.stored, h.stored, Table.lookup_append, Option.or_assoc]
  remembered k := by
    rw [h'.remembered, h.remembered, h.stored, Table.lookup_append]
    cases w.stored c k <;> cases Table.lookup k entries <;> simp
  others d hd := (h'.others d hd).trans (h.others d hd)

omit [BEq V] [ToString K] in
/-- What is taken in does not depend on the order, if no key is listed twice. -/
theorem eq_of_perm {w₂ : World K N V σ B} (h : w.Takes c entries w₁) (h' : w.Takes c later w₂)
    (hperm : later.Perm entries) (hnodup : (entries.map Prod.fst).Nodup) (k : K) :
    w₁.stored c k = w₂.stored c k ∧ w₁.remembered c k = w₂.remembered c k := by
  have hlookup := Table.lookup_of_perm hperm hnodup k
  constructor
  · rw [h.stored, h'.stored, hlookup]
  · rw [h.remembered, h'.remembered, hlookup]

end Takes

end World

/-! ### One by one -/

/-- Inserting an entry of the namespace gives its key a value, unless it has one. -/
theorem Cache.insert_inv {cache : Cache K V σ B} {k : K} (howns : cache.owns k = true) (v : V) :
    ∃ cache', cache.insert k v = (.ok (!cache.conflicts (k, v)), cache') ∧
      cache'.config = cache.config ∧
      (∀ l, cache'.store.get? l = (cache.store.get? l).or (Table.lookup l [(k, v)])) ∧
      ∀ l, cache'.failures.get? l =
        if cache.store.get? l = none ∧ (Table.lookup l [(k, v)]).isSome = true then none
        else cache.failures.get? l := by
  rw [insert, checkKey, if_pos howns]
  cases hk : cache.store.get? k with
  | some u =>
      refine ⟨cache, by simp [conflicts, hk], rfl, fun l => ?_, fun l => ?_⟩
      · by_cases hkl : k = l
        · simp [← hkl, hk]
        · simp [Table.lookup, hkl]
      · by_cases hkl : k = l
        · simp [← hkl, hk]
        · simp [Table.lookup, hkl]
  | none =>
      refine ⟨{ cache with
        store := cache.store.insert k v
        failures := cache.failures.erase k }, by simp [conflicts, hk], rfl, fun l => ?_,
        fun l => ?_⟩
      · by_cases hkl : k = l
        · simp [← hkl, hk, Table.lookup]
        · simp [Table.lookup, hkl]
      · by_cases hkl : k = l
        · simp [← hkl, hk, Table.lookup]
        · simp [Table.lookup, hkl]

namespace World

variable {w w' : World K N V σ B} {c : CacheId} {cache : Cache K V σ B}

/-- Inserts these entries into the cache one after another. Their answers come in the same
order. -/
def insertAll (w : World K N V σ B) (c : CacheId) :
    List (K × V) → Option (List (Except Violation Bool) × World K N V σ B)
  | [] => some ([], w)
  | (k, v) :: rest => do
    let (answer, w) ← w.onCache c (·.insert k v)
    let (answers, w) ← w.insertAll c rest
    return (answer :: answers, w)

/-- What one insertion does to the world. -/
theorem insert_takes (hcache : w.cache? c = some cache) {k : K} (howns : cache.owns k = true)
    (v : V) : ∃ w₁ cache₁, w.onCache c (·.insert k v) = some (.ok (!cache.conflicts (k, v)), w₁) ∧
      w.Takes c [(k, v)] w₁ ∧ w₁.cache? c = some cache₁ ∧ cache₁.config = cache.config ∧
      ∀ l, l ≠ k → cache₁.store.get? l = cache.store.get? l := by
  obtain ⟨cache₁, hinsert, hconfig, hstore, hfailures⟩ := Cache.insert_inv howns v
  have hcache₁ : (w.setCache c cache₁).cache? c = some cache₁ := cache?_setCache_self hcache _
  refine ⟨w.setCache c cache₁, cache₁, by rw [onCache, hcache, Option.map_some, hinsert], ?_,
    hcache₁, hconfig, fun l hl => ?_⟩
  · refine ⟨fun l => ?_, fun l => ?_, fun d hd => ?_⟩
    · rw [stored_of_cache? hcache₁, stored_of_cache? hcache, hstore]
    · rw [remembered_of_cache? hcache₁, remembered_of_cache? hcache, stored_of_cache? hcache,
        hfailures]
    · rw [ledger_setCache hcache, Function.update_of_ne hd]
  · rw [hstore, Table.lookup, if_neg (Ne.symm hl), Table.lookup, Option.or_none]

/-- Entries with different keys are answered by the cache as it was at first, and taken in one by
one. -/
theorem insertAll_takes {entries : List (K × V)} (hcache : w.cache? c = some cache)
    (owned : ∀ p ∈ entries, cache.owns p.1 = true) (distinct : (entries.map Prod.fst).Nodup) :
    ∃ w', w.insertAll c entries = some (entries.map fun p => .ok (!cache.conflicts p), w') ∧
      w.Takes c entries w' := by
  induction entries generalizing w cache with
  | nil => exact ⟨w, rfl, .nil w c⟩
  | cons p entries ih =>
      obtain ⟨k, v⟩ := p
      obtain ⟨hk, hrest⟩ := List.nodup_cons.1 distinct
      obtain ⟨w₁, cache₁, hinsert, htakes, hcache₁, hconfig, hstore⟩ :=
        insert_takes hcache (owned (k, v) (List.mem_cons_self ..)) v
      have howned : ∀ p ∈ entries, cache₁.owns p.1 = true := by
        intro p hp
        rw [Cache.owns, hconfig]
        exact owned p (List.mem_cons_of_mem _ hp)
      obtain ⟨w', hinsertAll, htakes'⟩ := ih hcache₁ howned hrest
      have hanswers : (entries.map fun p => .ok (!cache₁.conflicts p)) =
          entries.map fun p => (.ok (!cache.conflicts p) : Except Violation Bool) := by
        refine List.map_congr_left fun p hp => ?_
        have hne : p.1 ≠ k := fun hpk => hk (hpk ▸ List.mem_map.2 ⟨p, hp, rfl⟩)
        rw [Cache.conflicts, Cache.conflicts, hstore p.1 hne]
      refine ⟨w', ?_, htakes.append htakes'⟩
      rw [hanswers] at hinsertAll
      simp [insertAll, hinsert, hinsertAll]

end World

/-! ### Through a context -/

omit [BEq V] [ToString K] in
/-- The context has recorded the first entry of every key of the list, and has no other key. -/
def Context.Collects (context : Context K V σ B) (entries : List (K × V)) : Prop :=
  ∀ k, context.entries.get? k = (Table.lookup k entries).map .resolved

namespace Context.Collects

variable {context : Context K V σ B} {entries : List (K × V)}

omit [BEq V] [ToString K] in
/-- The value of a key is that of its first entry. -/
theorem get? (h : context.Collects entries) (k : K) :
    context.get? k = Table.lookup k entries := by
  rw [Context.get?, h]
  cases Table.lookup k entries <;> rfl

omit [BEq V] in
/-- No key of such a context is in flight. -/
theorem refusal (h : context.Collects entries) : context.refusal = none := by
  rw [context.refusal_eq_none_iff]
  intro k e he
  rw [h] at he
  obtain ⟨v, -, rfl⟩ := Option.map_eq_some_iff.1 he
  exact ⟨v, rfl⟩

omit [ToString K] in
/-- One more entry is recorded, or is there already, unless the first value of its key differs. -/
theorem record (h : context.Collects entries) (k : K) (v : V) :
    (∃ u, Table.lookup k entries = some u ∧ (u == v) = false ∧
      context.record k v false = .duplicate) ∨
    ((∀ u, Table.lookup k entries = some u → (u == v) = true) ∧
      ∃ context', context'.Collects (entries ++ [(k, v)]) ∧ context'.parent = context.parent ∧
        (context.record k v false = .recorded context' none ∨
          context.record k v false = .unchanged ∧ context' = context)) := by
  have hstate := h k
  rw [Context.record]
  cases hk : Table.lookup k entries with
  | none =>
      rw [hk, Option.map_none] at hstate
      refine Or.inr ⟨fun u hu => by simp at hu, context.setEntry k (.resolved v), fun l => ?_, rfl,
        Or.inl (by rw [hstate])⟩
      by_cases hkl : k = l
      · simp [setEntry, Table.lookup_append, ← hkl, hk, Table.lookup]
      · simp [setEntry, Table.lookup_append, hkl, h l, Table.lookup]
  | some u =>
      rw [hk, Option.map_some] at hstate
      cases huv : u == v with
      | false => exact Or.inl ⟨u, rfl, huv, by simp [hstate, huv]⟩
      | true =>
          refine Or.inr ⟨fun u' hu' => ?_, context, fun l => ?_, rfl,
            Or.inr ⟨by simp [hstate, huv], rfl⟩⟩
          · obtain rfl := Option.some.inj hu'
            exact huv
          · by_cases hkl : k = l
            · simp [Table.lookup_append, ← hkl, hk, hstate]
            · simp [Table.lookup_append, hkl, h l, Table.lookup]

end Context.Collects

namespace World

variable {w w' : World K N V σ B} {c : CacheId} {x : ContextId} {cache : Cache K V σ B}
  {context : Context K V σ B} {done entries : List (K × V)}

/-- Adds these entries to the context one after another, until one is refused. -/
def addAll (w : World K N V σ B) (x : ContextId) :
    List (K × V) → Option (Except Violation Unit × World K N V σ B)
  | [] => some (.ok (), w)
  | (k, v) :: rest => do
    match ← w.record x k v false with
    | (.error e, w) => return (.error e, w)
    | (.ok (), w) => w.addAll x rest

/-- Adds these entries to a fresh context of the cache, and commits it, unless one is refused. -/
def publishPass (w : World K N V σ B) (c : CacheId) (entries : List (K × V)) :
    Option (Except Violation Bool × World K N V σ B) := do
  let (x, w) ← w.createContext c
  match ← w.addAll x entries with
  | (.error e, w) => return (.error e, w)
  | (.ok (), w) => w.commit x

/-- The context collects these entries on behalf of the cache. -/
structure Gathers (w : World K N V σ B) (c : CacheId) (cache : Cache K V σ B) (x : ContextId)
    (entries : List (K × V)) : Prop where
  cache : w.cache? c = some cache
  consistent : Consistent entries
  context : ∃ context, w.context? x = some context ∧ context.parent = some c ∧
    context.Collects entries

omit [ToString K] in
/-- One more entry is collected, if its value equals those before it. -/
theorem Gathers.snoc [PartialEquivBEq V] (h : w.Gathers c cache x done) {k : K} {v : V}
    (hequal : ∀ u, Table.lookup k done = some u → (u == v) = true) (hcaches : w'.caches = w.caches)
    (hx : w'.context? x = some context) (hparent : context.parent = some c)
    (hcollects : context.Collects (done ++ [(k, v)])) :
    w'.Gathers c cache x (done ++ [(k, v)]) where
  cache := by rw [cache?, hcaches, ← cache?, h.cache]
  consistent := h.consistent.snoc hequal
  context := ⟨context, hx, hparent, hcollects⟩

/-- What adding one entry after the others comes to. -/
theorem Gathers.record [PartialEquivBEq V] (h : w.Gathers c cache x done) (k : K) (v : V) :
    ∃ r w', w.record x k v false = some (r, w') ∧ w'.caches = w.caches ∧
      ((r = .error (.foreignKey (toString k)) ∧ cache.owns k = false) ∨
        (r = .error (.duplicateKey (toString k)) ∧ ∃ u, (k, u) ∈ done ∧ (u == v) = false) ∨
        (r = .ok () ∧ cache.owns k = true ∧ w'.Gathers c cache x (done ++ [(k, v)]))) := by
  obtain ⟨context, hx, hparent, hcollects⟩ := h.context
  have hcheck : w.checkKey context k = some (cache.checkKey k) := by
    rw [checkKey, hparent]
    simp only [h.cache, Option.map_some]
  cases howns : cache.owns k with
  | false =>
      have hforeign : cache.checkKey k = .error (.foreignKey (toString k)) := by
        rw [Cache.checkKey, howns]
        rfl
      refine ⟨_, w, ?_, rfl, Or.inl ⟨rfl, rfl⟩⟩
      simp [World.record, hx, hcheck, hforeign]
  | true =>
      have haccepts : cache.checkKey k = .ok () := by
        rw [Cache.checkKey, if_pos howns]
      rcases hcollects.record k v with ⟨u, hu, hdiffer, hrecord⟩ |
        ⟨hequal, context', hcollects', hparent', hrecord | ⟨hrecord, rfl⟩⟩
      · refine ⟨_, w, ?_, rfl, Or.inr (Or.inl ⟨rfl, u, Table.mem_of_lookup hu, hdiffer⟩)⟩
        simp [World.record, hx, hcheck, haccepts, hrecord]
      · have hx' : (w.setContext x context').context? x = some context' :=
          context?_setContext_self hx _
        refine ⟨_, w.setContext x context', ?_, rfl, Or.inr (Or.inr ⟨rfl, rfl,
          h.snoc hequal rfl hx' (hparent'.trans hparent) hcollects'⟩)⟩
        simp [World.record, hx, hcheck, haccepts, hrecord]
      · refine ⟨_, w, ?_, rfl, Or.inr (Or.inr ⟨rfl, rfl,
          h.snoc hequal rfl hx hparent hcollects'⟩)⟩
        simp [World.record, hx, hcheck, haccepts, hrecord]

/-- How adding entries ends: all of them are collected, or one is refused, which is foreign or
differs from an earlier one of its key. -/
inductive Added (cache : Cache K V σ B) (c : CacheId) (x : ContextId) (entries : List (K × V)) :
    Except Violation Unit → World K N V σ B → Prop
  | all {w₂ : World K N V σ B} (owned : ∀ p ∈ entries, cache.owns p.1 = true)
      (gathers : w₂.Gathers c cache x entries) : Added cache c x entries (.ok ()) w₂
  | foreign {w₂ : World K N V σ B} {p : K × V} (listed : p ∈ entries)
      (foreign : cache.owns p.1 = false) :
      Added cache c x entries (.error (.foreignKey (toString p.1))) w₂
  | doubled {w₂ : World K N V σ B} {k : K} (doubles : Doubles entries k) :
      Added cache c x entries (.error (.duplicateKey (toString k))) w₂

/-- Entries are added until one is refused. -/
theorem addAll_added [PartialEquivBEq V] (h : w.Gathers c cache x done)
    (owned : ∀ p ∈ done, cache.owns p.1 = true) (entries : List (K × V)) :
    ∃ r w', w.addAll x entries = some (r, w') ∧ w'.caches = w.caches ∧
      Added cache c x (done ++ entries) r w' := by
  induction entries generalizing w done with
  | nil =>
      rw [List.append_nil]
      exact ⟨_, w, rfl, rfl, .all owned h⟩
  | cons p entries ih =>
      obtain ⟨k, v⟩ := p
      obtain ⟨r, w₁, hrecord, hcaches, hcases⟩ := h.record k v
      rcases hcases with ⟨rfl, hforeign⟩ | ⟨rfl, u, hu, hdiffer⟩ | ⟨rfl, howns, hgathers⟩
      · have hlisted : (k, v) ∈ done ++ (k, v) :: entries := by simp
        exact ⟨_, w₁, by simp [addAll, hrecord], hcaches, .foreign hlisted hforeign⟩
      · have hpair : [(k, u), (k, v)].Sublist (done ++ (k, v) :: entries) :=
          (List.singleton_sublist.2 hu).append (List.singleton_sublist.2 (List.mem_cons_self ..))
        exact ⟨_, w₁, by simp [addAll, hrecord], hcaches, .doubled ⟨u, v, hpair, hdiffer⟩⟩
      · have howned : ∀ p ∈ done ++ [(k, v)], cache.owns p.1 = true := by
          intro p hp
          rcases List.mem_append.1 hp with hp | hp
          · exact owned p hp
          · rw [List.mem_singleton.1 hp]
            exact howns
        obtain ⟨r, w', hadd, hcaches', hadded⟩ := ih hgathers howned
        rw [List.append_assoc, List.singleton_append] at hadded
        exact ⟨r, w', by simp [addAll, hrecord, hadd], hcaches'.trans hcaches, hadded⟩

/-- A pass adds the entries to a fresh context, and commits it if all of them are collected. -/
theorem publishPass_added [PartialEquivBEq V] (hcache : w.cache? c = some cache)
    (entries : List (K × V)) :
    ∃ r x w₁, w₁.caches = w.caches ∧ Added cache c x entries r w₁ ∧
      ((∃ e, r = .error e ∧ w.publishPass c entries = some (.error e, w₁)) ∨
        (r = .ok () ∧ w.publishPass c entries = w₁.commit x)) := by
  obtain ⟨⟨x, w₀⟩, hcreate⟩ : ∃ p, w.createContext c = some p := by
    rw [createContext, hcache]
    exact ⟨_, rfl⟩
  obtain ⟨-, context, -, -, hx, hempty, hparent, -, -, -, hcaches, -⟩ := createContext_inv hcreate
  have hgathers : w₀.Gathers c cache x [] :=
    { cache := by rw [cache?, hcaches, ← cache?, hcache]
      consistent := List.Pairwise.nil
      context := ⟨context, hx, hparent, fun k => by rw [hempty]; rfl⟩ }
  obtain ⟨r, w₁, hadd, hcaches₁, hadded⟩ :=
    addAll_added hgathers (fun p hp => by simp at hp) entries
  rw [List.nil_append] at hadded
  refine ⟨r, x, w₁, hcaches₁.trans hcaches, hadded, ?_⟩
  cases r with
  | error e => exact Or.inl ⟨e, rfl, by simp [publishPass, hcreate, hadd]⟩
  | ok u => exact Or.inr ⟨rfl, by simp [publishPass, hcreate, hadd]⟩

/-- A context that has collected entries with different keys is committed if the cache contradicts
none of them. -/
theorem Gathers.commit (h : w.Gathers c cache x entries)
    (distinct : (entries.map Prod.fst).Nodup) :
    ∃ w', w.commit x = some (.ok (!entries.any cache.conflicts), w') ∧
      (entries.any cache.conflicts = true → w'.ledger = w.ledger) ∧
      (entries.any cache.conflicts = false → w.Takes c entries w') := by
  obtain ⟨context, hx, hparent, hcollects⟩ := h.context
  have hmem (p : K × V) : p ∈ context.recorded ↔ p ∈ entries := by
    rw [Context.mem_recorded, ← Context.get?_eq_some_iff, hcollects.get?,
      Table.lookup_eq_some_iff_mem distinct]
  have hany : context.recorded.any cache.conflicts = entries.any cache.conflicts := by
    rw [Bool.eq_iff_iff, List.any_eq_true, List.any_eq_true]
    simp only [hmem]
  have hcommit := commit_of_settled hx hcollects.refusal hparent h.cache
  rw [Cache.publish_fst, hany] at hcommit
  refine ⟨_, hcommit, fun hconflict => ?_, fun hagree => ?_⟩
  · rw [hconflict] at hcommit
    exact commit_unchanged hcommit (by simp)
  · rw [hagree] at hcommit
    obtain ⟨hstored, hremembered, hothers⟩ := commit_inserts hx hparent hcommit
    simp only [hcollects.get?] at hstored hremembered
    exact ⟨hstored, hremembered, hothers⟩

omit [BEq V] [ToString K] in
/-- The contexts have no part in what a cache takes in. -/
theorem Takes.of_caches {w₁ : World K N V σ B} (h : w₁.Takes c entries w')
    (hcaches : w₁.caches = w.caches) : w.Takes c entries w' := by
  have hledger := ledger_congr hcaches
  refine ⟨fun k => ?_, fun k => ?_, fun d hd => ?_⟩
  · rw [h.stored, stored_eq_ledger, hledger, ← stored_eq_ledger]
  · rw [h.remembered, stored_eq_ledger, remembered_eq_ledger, hledger, ← stored_eq_ledger,
      ← remembered_eq_ledger]
  · rw [h.others d hd, hledger]

/-- A pass of entries of the namespace with different keys is published if the cache contradicts
none of them. -/
theorem publishPass_decides [PartialEquivBEq V] (hcache : w.cache? c = some cache)
    (distinct : (entries.map Prod.fst).Nodup) (owned : ∀ p ∈ entries, cache.owns p.1 = true) :
    ∃ b w₁, w.publishPass c entries = some (.ok b, w₁) ∧ b = !entries.any cache.conflicts ∧
      (b = false → w₁.ledger = w.ledger) ∧ (b = true → w.Takes c entries w₁) := by
  obtain ⟨r, x, w₀, hcaches, hadded, hpass⟩ := publishPass_added hcache entries
  cases hadded with
  | foreign listed foreign => simp [owned _ listed] at foreign
  | doubled doubles => exact absurd doubles (not_doubles_of_nodup distinct)
  | all _ gathers =>
      rcases hpass with ⟨e, he, -⟩ | ⟨-, hpass⟩
      · simp at he
      · obtain ⟨w₁, hcommit, hlost, hwon⟩ := gathers.commit distinct
        refine ⟨_, w₁, hpass.trans hcommit, rfl, fun hb => ?_, fun hb => ?_⟩
        · rw [hlost (by simpa using hb), ledger_congr hcaches]
        · exact (hwon (by simpa using hb)).of_caches hcaches

end World

/-! ### Both doors -/

section Doors

variable {w : World K N V σ B} {c : CacheId} {cache : Cache K V σ B}

/-- The two ways of publishing a list of entries in a cache, in any orders, compared. -/
structure DoorsAgree (w : World K N V σ B) (c : CacheId) (cache : Cache K V σ B)
    (entries : List (K × V)) : Prop where
  /-- For entries of the namespace with different keys both ways are answered. The pass is published
  if and only if every single insertion succeeds, and then both have given the cache the same values
  and made it forget the same failures. Otherwise the pass leaves all as it was, and the entries
  that do not conflict are inserted. -/
  agree : (entries.map Prod.fst).Nodup → (∀ p ∈ entries, cache.owns p.1 = true) →
    ∀ posted inserted : List (K × V), posted.Perm entries → inserted.Perm entries →
    ∃ b answers w₁ w₂, w.publishPass c posted = some (.ok b, w₁) ∧
      w.insertAll c inserted = some (answers, w₂) ∧
      (b = true ↔ ∀ a ∈ answers, a = .ok true) ∧
      answers = inserted.map (fun p => .ok (!cache.conflicts p)) ∧
      (b = true → ∀ k, w₁.stored c k = w₂.stored c k ∧ w₁.remembered c k = w₂.remembered c k) ∧
      (b = false → w₁.ledger = w.ledger) ∧
      (∀ k, w₂.stored c k = (w.stored c k).or
        (Table.lookup k (entries.filter fun p => !cache.conflicts p))) ∧
      (∀ k, w₂.remembered c k =
        if w.stored c k = none ∧ (w₂.stored c k).isSome = true then none else w.remembered c k) ∧
      ∀ d, d ≠ c → w₁.ledger d = w.ledger d ∧ w₂.ledger d = w.ledger d
  /-- If there are different values for a key, or a foreign key, an addition to the context is
  refused because of one of these, and nothing is published. -/
  refused : (∃ k, Doubles entries k) ∨ (∃ p ∈ entries, cache.owns p.1 = false) →
    ∃ e w₁, w.publishPass c entries = some (.error e, w₁) ∧ w₁.ledger = w.ledger ∧
      ((∃ k, e = .duplicateKey (toString k) ∧ Doubles entries k) ∨
        ∃ p ∈ entries, e = .foreignKey (toString p.1) ∧ cache.owns p.1 = false)

omit [ToString K] in
/-- An entry whose key has no published value does not conflict. -/
theorem lookup_welcome (cache : Cache K V σ B) {entries : List (K × V)}
    (distinct : (entries.map Prod.fst).Nodup) {k : K} (hk : cache.store.get? k = none) :
    Table.lookup k (entries.filter fun p => !cache.conflicts p) = Table.lookup k entries := by
  have hfiltered : ((entries.filter fun p => !cache.conflicts p).map Prod.fst).Nodup :=
    distinct.sublist (List.filter_sublist.map Prod.fst)
  ext v
  rw [Table.lookup_eq_some_iff_mem hfiltered, Table.lookup_eq_some_iff_mem distinct,
    List.mem_filter]
  simp [Cache.conflicts, hk]

/-- A list of entries is published through a context, all or none, if and only if each of them can
be inserted by itself. -/
theorem two_doors_agree [PartialEquivBEq V] (hcache : w.cache? c = some cache)
    (entries : List (K × V)) : DoorsAgree w c cache entries := by
  constructor
  · intro distinct owned posted inserted hposted hinserted
    obtain ⟨b, w₁, hpass, hb, hlost, hwon⟩ := World.publishPass_decides hcache
      ((hposted.map Prod.fst).nodup_iff.2 distinct) fun p hp => owned p (hposted.mem_iff.1 hp)
    obtain ⟨w₂, hinsert, htakes⟩ := World.insertAll_takes hcache
      (fun p hp => owned p (hinserted.mem_iff.1 hp)) ((hinserted.map Prod.fst).nodup_iff.2 distinct)
    -- Entries in conflict are those of published keys, where the list does not count.
    have hlookup (k : K) : (w.stored c k).or (Table.lookup k inserted) = (w.stored c k).or
        (Table.lookup k (entries.filter fun p => !cache.conflicts p)) := by
      rw [Table.lookup_of_perm hinserted distinct, World.stored_of_cache? hcache]
      cases hk : cache.store.get? k with
      | some u => rfl
      | none => rw [lookup_welcome cache distinct hk]
    refine ⟨b, _, w₁, w₂, hpass, hinsert, ?_, rfl, ?_, hlost, ?_, ?_, ?_⟩
    · rw [hb, (hposted.trans hinserted.symm).any_eq, Bool.not_eq_true', List.any_eq_false]
      constructor
      · intro hagree a ha
        obtain ⟨p, hp, rfl⟩ := List.mem_map.1 ha
        simpa using hagree p hp
      · intro hanswers p hp
        simpa using hanswers _ (List.mem_map.2 ⟨p, hp, rfl⟩)
    · intro hb k
      exact (hwon hb).eq_of_perm htakes (hinserted.trans hposted.symm)
        ((hposted.map Prod.fst).nodup_iff.2 distinct) k
    · intro k
      rw [htakes.stored, hlookup]
    · intro k
      rw [htakes.remembered, htakes.stored]
      cases w.stored c k <;> simp
    · intro d hd
      refine ⟨?_, htakes.others d hd⟩
      cases b with
      | false => rw [hlost rfl]
      | true => exact (hwon rfl).others d hd
  · intro hbad
    obtain ⟨r, x, w₁, hcaches, hadded, hpass⟩ := World.publishPass_added hcache entries
    rcases hpass with ⟨e, rfl, hpass⟩ | ⟨rfl, -⟩
    · refine ⟨e, w₁, hpass, World.ledger_congr hcaches, ?_⟩
      cases hadded with
      | foreign listed foreign => exact Or.inr ⟨_, listed, rfl, foreign⟩
      | doubled doubles => exact Or.inl ⟨_, rfl, doubles⟩
    · cases hadded with
      | all owned gathers =>
          rcases hbad with ⟨k, hdoubles⟩ | ⟨p, hp, hforeign⟩
          · exact absurd hdoubles gathers.consistent.not_doubles
          · simp [owned p hp] at hforeign

end Doors

namespace FitAndUnfitLists

/-- Two keys have values, and two others have failed. Keys from 10 on are foreign. -/
def cache : Cache Nat Nat Unit Unit where
  config := { scope := some fun k => k < 10, cachesFailures := true }
  store := (Table.empty.insert 1 10).insert 2 20
  failures := (Table.empty.insert 3 ⟨.counted 1, "no"⟩).insert 4 ⟨.counted 2, "no"⟩

/-- There is only this cache. -/
def world : World Nat Unit Nat Unit Unit where
  caches := #[cache]
  client := ()

/-- An entry that is published already, one that conflicts, and one whose key has failed. -/
def mixed : List (Nat × Nat) := [(1, 10), (2, 21), (3, 30)]

/-- The entries of these that do not conflict. -/
def welcome : List (Nat × Nat) := [(1, 10), (3, 30)]

/-- The first key is listed with two values, and the last one is foreign. -/
def unfit : List (Nat × Nat) := [(5, 50), (6, 60), (5, 51), (12, 0)]

/-- A conflict keeps a whole pass out, but no other entry that is inserted by itself. -/
theorem doors_agree :
    world.cache? ⟨0⟩ = some cache ∧
      DoorsAgree world ⟨0⟩ cache mixed ∧
      DoorsAgree world ⟨0⟩ cache welcome ∧
      DoorsAgree world ⟨0⟩ cache unfit ∧
      (world.publishPass ⟨0⟩ mixed).map Prod.fst = some (.ok false) ∧
      (world.insertAll ⟨0⟩ mixed).map Prod.fst = some [.ok true, .ok false, .ok true] ∧
      (world.publishPass ⟨0⟩ welcome).map Prod.fst = some (.ok true) ∧
      (world.publishPass ⟨0⟩ unfit).map Prod.fst = some (.error (.duplicateKey "5")) := by
  have hcache : world.cache? ⟨0⟩ = some cache := rfl
  exact ⟨hcache, two_doors_agree hcache _, two_doors_agree hcache _, two_doors_agree hcache _,
    rfl, rfl, rfl, rfl⟩

end FitAndUnfitLists

end DerivationCache
