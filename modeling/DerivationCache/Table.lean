/-!
# Finite tables

A `Table K V` is a finite map from `K` to `V` that keeps its keys in the order in which they
first came in. Stores of published values, memos of failures, in-flight claims, the entries
of a generation pass and the caches of a registry are all tables.

The view of a table is `Table.get?`: what each operation does to it is one lemma
(`get?_insert`, `get?_erase`), and `mem_toList` says that the listing holds exactly the pairs
of that view. That no key is listed twice is part of the type, so `Table.size` counts keys.
-/

namespace DerivationCache

/-- A finite map in order of first insertion. No key is listed twice. -/
structure Table (K V : Type) where
  /-- The pairs, oldest key first. -/
  toList : List (K × V) := []
  nodup : (toList.map Prod.fst).Nodup := by exact List.nodup_nil

namespace Table

variable {K V : Type}

/-! ### Association lists -/

/-- The value of the first pair with this key. -/
def lookup [DecidableEq K] (k : K) : List (K × V) → Option V
  | [] => none
  | (k', v) :: rest => if k' = k then some v else lookup k rest

/-- Writes a value in the place of the key, at the end if the key is new. -/
def put [DecidableEq K] (k : K) (v : V) : List (K × V) → List (K × V)
  | [] => [(k, v)]
  | (k', v') :: rest => if k' = k then (k', v) :: rest else (k', v') :: put k v rest

/-- What is put is found under its key, and nothing else has changed. -/
theorem lookup_put [DecidableEq K] (k k' : K) (v : V) (l : List (K × V)) :
    lookup k' (put k v l) = if k = k' then some v else lookup k' l := by
  induction l with
  | nil => simp [put, lookup]
  | cons p rest ih =>
    obtain ⟨k₀, v₀⟩ := p
    by_cases h : k₀ = k
    · subst h
      by_cases h' : k₀ = k' <;> simp [put, lookup, h']
    · by_cases h' : k₀ = k'
      · subst h'
        simp [put, lookup, h, Ne.symm h]
      · simp [put, lookup, h, h', ih]

/-- A key keeps its place. A new one goes to the end. -/
theorem keys_put [DecidableEq K] (k : K) (v : V) (l : List (K × V)) :
    (put k v l).map Prod.fst =
      if k ∈ l.map Prod.fst then l.map Prod.fst else l.map Prod.fst ++ [k] := by
  induction l with
  | nil => simp [put]
  | cons p rest ih =>
    obtain ⟨k₀, v₀⟩ := p
    by_cases h : k₀ = k
    · subst h
      simp [put]
    · by_cases hm : k ∈ rest.map Prod.fst
      · simp only [put, h, if_false, List.map_cons, ih, hm, List.mem_cons, or_true, if_true]
      · simp only [put, h, if_false, List.map_cons, ih, hm, List.mem_cons, Ne.symm h, or_false,
          List.cons_append]

/-- No key is listed twice after a value is put. -/
theorem nodup_put [DecidableEq K] (k : K) (v : V) {l : List (K × V)}
    (h : (l.map Prod.fst).Nodup) : ((put k v l).map Prod.fst).Nodup := by
  rw [keys_put]
  split
  · exact h
  · rename_i hk
    rw [List.nodup_append]
    refine ⟨h, by simp, ?_⟩
    intro a ha b hb hab
    rw [List.mem_singleton.1 hb] at hab
    exact hk (hab ▸ ha)

/-- If no key is listed twice, the pairs of a list are exactly what is found in it. -/
theorem lookup_eq_some_iff_mem [DecidableEq K] {l : List (K × V)}
    (h : (l.map Prod.fst).Nodup) (k : K) (v : V) : lookup k l = some v ↔ (k, v) ∈ l := by
  induction l with
  | nil => simp [lookup]
  | cons p rest ih =>
    obtain ⟨k₀, v₀⟩ := p
    simp only [List.map_cons, List.nodup_cons] at h
    by_cases hk : k₀ = k
    · subst hk
      have hrest : (k₀, v) ∉ rest := fun hm => h.1 (List.mem_map_of_mem (f := Prod.fst) hm)
      simp [lookup, hrest, eq_comm]
    · simp [lookup, hk, ih h.2, Ne.symm hk]

/-- A key that is taken away is not found any more, and nothing else has changed. -/
theorem lookup_filter [DecidableEq K] (k k' : K) (l : List (K × V)) :
    lookup k' (l.filter fun p => decide (p.1 ≠ k)) =
      if k = k' then none else lookup k' l := by
  induction l with
  | nil => simp [lookup]
  | cons p rest ih =>
    obtain ⟨k₀, v₀⟩ := p
    by_cases h : k₀ = k
    · subst h
      by_cases h' : k₀ = k' <;> simp_all [lookup]
    · by_cases h' : k₀ = k'
      · subst h'
        simp [lookup, h, Ne.symm h]
      · simp_all [lookup]

/-- To put a new key and take it away again is to do nothing. -/
theorem filter_put [DecidableEq K] {k : K} {l : List (K × V)} (h : lookup k l = none) (v : V) :
    ((put k v l).filter fun p => decide (p.1 ≠ k)) = l := by
  induction l with
  | nil => simp [put]
  | cons p rest ih =>
    obtain ⟨k₀, v₀⟩ := p
    by_cases hk : k₀ = k
    · simp [lookup, hk] at h
    · have hrest : lookup k rest = none := by simpa [lookup, hk] using h
      rw [put, if_neg hk, List.filter_cons_of_pos (by simpa using hk), ih hrest]

/-! ### Operations -/

/-- The table without keys. -/
def empty : Table K V := {}

/-- The empty table serves as a default. -/
instance : Inhabited (Table K V) := ⟨empty⟩

/-- The value of a key. -/
def get? [DecidableEq K] (t : Table K V) (k : K) : Option V := lookup k t.toList

/-- Whether a key has a value. -/
def contains [DecidableEq K] (t : Table K V) (k : K) : Bool := (t.get? k).isSome

/-- Gives a key a value, in place of the one it has. -/
def insert [DecidableEq K] (t : Table K V) (k : K) (v : V) : Table K V :=
  ⟨put k v t.toList, nodup_put k v t.nodup⟩

/-- Takes a key and its value away. -/
def erase [DecidableEq K] (t : Table K V) (k : K) : Table K V :=
  ⟨t.toList.filter fun p => decide (p.1 ≠ k),
    List.Nodup.sublist (List.Sublist.map _ List.filter_sublist) t.nodup⟩

/-- The keys, oldest first. -/
def keys (t : Table K V) : List K := t.toList.map Prod.fst

/-- The number of keys. -/
def size (t : Table K V) : Nat := t.toList.length

/-- Inserts each pair in turn. -/
def insertAll [DecidableEq K] (t : Table K V) (pairs : List (K × V)) : Table K V :=
  pairs.foldl (fun t p => t.insert p.1 p.2) t

/-- Takes each of the keys away. -/
def eraseAll [DecidableEq K] (t : Table K V) (ks : List K) : Table K V :=
  ks.foldl erase t

/-! ### What the operations do to the view -/

/-- Each key is listed once. -/
theorem nodup_keys (t : Table K V) : t.keys.Nodup := t.nodup

variable [DecidableEq K]

@[simp] theorem get?_empty (k : K) : (empty : Table K V).get? k = none := rfl

/-- An insertion changes the value of its key alone. -/
@[simp] theorem get?_insert (t : Table K V) (k k' : K) (v : V) :
    (t.insert k v).get? k' = if k = k' then some v else t.get? k' :=
  lookup_put k k' v t.toList

/-- An erasure changes the value of its key alone. -/
@[simp] theorem get?_erase (t : Table K V) (k k' : K) :
    (t.erase k).get? k' = if k = k' then none else t.get? k' :=
  lookup_filter k k' t.toList

/-- The keys that are contained are those with a value. -/
theorem contains_iff (t : Table K V) (k : K) : t.contains k = true ↔ ∃ v, t.get? k = some v :=
  Option.isSome_iff_exists

/-- The listing holds exactly the pairs of the view. -/
theorem mem_toList (t : Table K V) (k : K) (v : V) : (k, v) ∈ t.toList ↔ t.get? k = some v :=
  (lookup_eq_some_iff_mem t.nodup k v).symm

/-- The listed keys are those with a value. -/
theorem mem_keys (t : Table K V) (k : K) : k ∈ t.keys ↔ t.contains k = true := by
  rw [contains_iff, keys, List.mem_map]
  constructor
  · rintro ⟨⟨k', v⟩, hm, rfl⟩
    exact ⟨v, (t.mem_toList k' v).1 hm⟩
  · rintro ⟨v, hv⟩
    exact ⟨(k, v), (t.mem_toList k v).2 hv, rfl⟩

/-- Tables with the same pairs, in whatever order, have the same view. -/
theorem get?_of_perm {t t' : Table K V} (h : t'.toList.Perm t.toList) (k : K) :
    t'.get? k = t.get? k := by
  ext v
  rw [← mem_toList, ← mem_toList, h.mem_iff]

/-- A new key that is taken away again leaves no trace. -/
theorem erase_insert {t : Table K V} {k : K} (h : t.get? k = none) (v : V) :
    (t.insert k v).erase k = t := by
  obtain ⟨l, hl⟩ := t
  simp only [erase, insert, mk.injEq]
  exact filter_put h v

/-- Exactly the keys of the list are taken away. -/
theorem get?_eraseAll (t : Table K V) (ks : List K) (k : K) :
    (t.eraseAll ks).get? k = if k ∈ ks then none else t.get? k := by
  induction ks generalizing t with
  | nil => rfl
  | cons l rest ih =>
    have hrest : (t.eraseAll (l :: rest)).get? k =
        if k ∈ rest then none else (t.erase l).get? k := ih (t.erase l)
    rw [hrest, get?_erase]
    by_cases hl : l = k
    · subst hl
      simp
    · by_cases hk : k ∈ rest <;> simp [hk, hl, Ne.symm hl]

/-- Pairs with different keys are all found after they were inserted, and no other key is
touched. -/
theorem get?_insertAll (t : Table K V) {pairs : List (K × V)}
    (h : (pairs.map Prod.fst).Nodup) (k : K) :
    (t.insertAll pairs).get? k = (lookup k pairs).or (t.get? k) := by
  induction pairs generalizing t with
  | nil => rfl
  | cons p rest ih =>
    obtain ⟨k₀, v₀⟩ := p
    rw [List.map_cons, List.nodup_cons] at h
    have hrest : (t.insertAll ((k₀, v₀) :: rest)).get? k =
        (lookup k rest).or ((t.insert k₀ v₀).get? k) := ih (t.insert k₀ v₀) h.2
    rw [hrest, get?_insert]
    by_cases hk : k₀ = k
    · subst hk
      have hnone : lookup k₀ rest = none := by
        rw [Option.eq_none_iff_forall_not_mem]
        intro v hv
        have hmem : (k₀, v) ∈ rest := (lookup_eq_some_iff_mem h.2 k₀ v).1 hv
        exact h.1 (List.mem_map.2 ⟨(k₀, v), hmem, rfl⟩)
      simp [lookup, hnone]
    · simp [lookup, hk]

end Table

end DerivationCache
