import DerivationCache.Proofs.Ledger
import Mathlib.Data.List.Nodup

/-!
# How a commit is decided

A commit looks at three things, in this order: which keys of the context are in flight, whether
the context has a parent, and what the parent has published for the recorded keys. It is refused
for the first two, and turned down if a different value is published (`World.Contradicts`).

A commit is all or nothing. Unless it succeeds, the parent keeps its values and its remembered
failures. If it succeeds, every recorded key that had no value gets the recorded one, and its
remembered failure is forgotten. None of this depends on the order in which entries are listed.
That order decides one thing only: which key a refusal names if several are in flight. Each of
them is the first in some order.

## Main results

* `Context.namesInFlight_iff`: the errors that a commit is refused with, over all orders of the
  entries, are those that name a key in flight.
* `Context.refusal_eq_of_sole`: a sole key in flight is named in every order.
* `Cache.gains_of_publish`: what publication does to values and remembered failures.
* `World.commit_of_settled`: a commit that is not refused is the publication of the recorded
  values.
* `World.commit_inserts`: what a commit that succeeds does to values and remembered failures.
* `commit_decides`: when a commit is refused, turned down or made, and what each comes to.
-/

namespace DerivationCache

variable {K N V σ B : Type}

/-! ### Keys in flight -/

namespace Context

variable [DecidableEq K]

/-- The key was requested within the pass, and no value is recorded for it. -/
def InFlight (x : Context K V σ B) (k : K) : Prop :=
  ∃ e, x.entries.get? k = some e ∧ e.value? = none

/-- A key is in flight if it was seen and has no value. -/
theorem mem_inFlight {x : Context K V σ B} {k : K} {e : Entry V} :
    (k, e) ∈ x.inFlight ↔ x.entries.get? k = some e ∧ e.value? = none := by
  rw [inFlight, List.mem_filter, Table.mem_toList, Option.isNone_iff_eq_none]

/-- The value of a key is what is recorded for it. -/
theorem get?_eq_some_iff {x : Context K V σ B} {k : K} {v : V} :
    x.get? k = some v ↔ x.entries.get? k = some (.resolved v) := by
  rw [get?, Option.bind_eq_some_iff]
  constructor
  · rintro ⟨e, he, hv⟩
    cases e with
    | resolved u =>
        obtain rfl : u = v := Option.some.inj hv
        exact he
    | pending => simp [Entry.value?] at hv
    | placeholderIssued p => simp [Entry.value?] at hv
  · intro h
    exact ⟨.resolved v, h, rfl⟩

/-- The recorded pairs are found by their keys. -/
theorem lookup_recorded (x : Context K V σ B) (k : K) :
    Table.lookup k x.recorded = x.get? k := by
  ext v
  rw [Table.lookup_eq_some_iff_mem x.nodup_recorded, mem_recorded, get?_eq_some_iff]

variable [ToString K]

/-- A commit is not refused if and only if no key is in flight. -/
theorem refusal_eq_none_iff_settled (x : Context K V σ B) :
    x.refusal = none ↔ ∀ k, ¬ x.InFlight k := by
  rw [refusal_eq_none_iff]
  constructor
  · rintro h k ⟨e, he, hvalue⟩
    obtain ⟨v, rfl⟩ := h k e he
    simp [Entry.value?] at hvalue
  · intro h k e he
    cases e with
    | resolved v => exact ⟨v, rfl⟩
    | pending => exact absurd ⟨_, he, rfl⟩ (h k)
    | placeholderIssued p => exact absurd ⟨_, he, rfl⟩ (h k)

/-- The error names a key in flight, and says whether it is a value for the key that is waited for
or a value for its placeholder. -/
inductive NamesInFlight (x : Context K V σ B) : Violation → Prop
  | pending {k : K} (state : x.entries.get? k = some .pending) :
      NamesInFlight x (.pendingAtCommit (toString k))
  | placeholder {k : K} {p : Placeholder V}
      (state : x.entries.get? k = some (.placeholderIssued p)) :
      NamesInFlight x (.unresolvedPlaceholder (toString k))

/-- The refusal of an entry names its key. -/
theorem NamesInFlight.of_refusal {x : Context K V σ B} {k : K} {s : Entry V} {e : Violation}
    (state : x.entries.get? k = some s) (h : s.refusal k = some e) : x.NamesInFlight e := by
  cases s with
  | pending =>
      obtain rfl := Option.some.inj h
      exact .pending state
  | placeholderIssued p =>
      obtain rfl := Option.some.inj h
      exact .placeholder state
  | resolved v => simp [Entry.refusal] at h

/-- An error that names a key in flight is the refusal of that key's entry. -/
theorem NamesInFlight.exists_entry {x : Context K V σ B} {e : Violation}
    (h : x.NamesInFlight e) : ∃ k s, x.entries.get? k = some s ∧ s.refusal k = some e := by
  cases h with
  | pending state => exact ⟨_, _, state, rfl⟩
  | placeholder state => exact ⟨_, _, state, rfl⟩

/-- A key whose entry is refused is in flight. -/
theorem inFlight_of_entry {x : Context K V σ B} {k : K} {s : Entry V} {e : Violation}
    (state : x.entries.get? k = some s) (h : s.refusal k = some e) : x.InFlight k := by
  cases s with
  | pending => exact ⟨_, state, rfl⟩
  | placeholderIssued p => exact ⟨_, state, rfl⟩
  | resolved v => simp [Entry.refusal] at h

/-- Every refusal names a key in flight. -/
theorem namesInFlight_of_refusal {x : Context K V σ B} {e : Violation}
    (h : x.refusal = some e) : x.NamesInFlight e := by
  obtain ⟨⟨k, s⟩, hmem, hs⟩ := List.exists_of_findSome?_eq_some h
  exact .of_refusal ((x.entries.mem_toList k s).1 hmem) hs

/-- What is named does not depend on the order of the entries. -/
theorem NamesInFlight.of_perm {x y : Context K V σ B} {e : Violation}
    (hentries : y.entries.toList.Perm x.entries.toList) (h : y.NamesInFlight e) :
    x.NamesInFlight e := by
  obtain ⟨k, s, hk, hs⟩ := h.exists_entry
  exact .of_refusal ((Table.get?_of_perm hentries k).symm.trans hk) hs

/-- Every key in flight is the first one in some order of the entries. -/
theorem NamesInFlight.exists_order {x : Context K V σ B} {e : Violation}
    (h : x.NamesInFlight e) :
    ∃ y : Context K V σ B, y.entries.toList.Perm x.entries.toList ∧ y.parent = x.parent ∧
      y.refusal = some e := by
  obtain ⟨k, s, hk, hs⟩ := h.exists_entry
  obtain ⟨pre, post, hlist⟩ := List.append_of_mem ((x.entries.mem_toList k s).2 hk)
  have hperm : ((k, s) :: (pre ++ post)).Perm x.entries.toList := by
    rw [hlist]
    exact List.perm_middle.symm
  refine ⟨{ x with
    entries := ⟨(k, s) :: (pre ++ post), (hperm.map Prod.fst).nodup_iff.2 x.entries.nodup⟩ },
    hperm, rfl, ?_⟩
  rw [refusal, List.findSome?_cons_of_isSome (by simp [hs])]
  exact hs

/-- The errors that a commit can be refused with, over all orders of the entries, are those that
name a key in flight. -/
theorem namesInFlight_iff {x : Context K V σ B} {e : Violation} :
    x.NamesInFlight e ↔ ∃ y : Context K V σ B, y.entries.toList.Perm x.entries.toList ∧
      y.parent = x.parent ∧ y.refusal = some e := by
  constructor
  · exact NamesInFlight.exists_order
  · rintro ⟨y, hentries, -, hrefusal⟩
    exact (namesInFlight_of_refusal hrefusal).of_perm hentries

/-- Whether a commit is refused does not depend on the order of the entries. -/
theorem refusal_eq_none_of_perm {x y : Context K V σ B}
    (hentries : y.entries.toList.Perm x.entries.toList) (h : x.refusal = none) :
    y.refusal = none := by
  rw [refusal_eq_none_iff] at h ⊢
  intro k e he
  exact h k e ((Table.get?_of_perm hentries k).symm.trans he)

/-- If no two keys are in flight, only one error can name a key in flight. -/
theorem NamesInFlight.unique {x : Context K V σ B} {e e' : Violation}
    (sole : ∀ k l, x.InFlight k → x.InFlight l → k = l) (h : x.NamesInFlight e)
    (h' : x.NamesInFlight e') : e = e' := by
  obtain ⟨k, s, hk, hs⟩ := h.exists_entry
  obtain ⟨l, t, hl, ht⟩ := h'.exists_entry
  obtain rfl : k = l := sole k l (inFlight_of_entry hk hs) (inFlight_of_entry hl ht)
  obtain rfl : s = t := Option.some.inj (hk.symm.trans hl)
  exact Option.some.inj (hs.symm.trans ht)

/-- A sole key in flight is named, in whatever order the entries are listed. -/
theorem refusal_eq_of_sole {x : Context K V σ B} {e : Violation}
    (sole : ∀ k l, x.InFlight k → x.InFlight l → k = l) (h : x.NamesInFlight e) :
    x.refusal = some e := by
  cases hrefusal : x.refusal with
  | none =>
      obtain ⟨k, s, hk, hs⟩ := h.exists_entry
      exact absurd (inFlight_of_entry hk hs) (x.refusal_eq_none_iff_settled.1 hrefusal k)
  | some e' =>
      rw [(namesInFlight_of_refusal hrefusal).unique sole h]

end Context

/-! ### Publication -/

namespace Cache

variable [DecidableEq K] [BEq V]

/-- Entries are published unless one of them contradicts a published value. -/
theorem publish_fst (c : Cache K V σ B) (entries : List (K × V)) :
    (c.publish entries).1 = !entries.any c.conflicts := by
  rw [publish]
  cases entries.any c.conflicts <;> rfl

/-- An entry contradicts a published value that differs. -/
theorem conflicts_eq_true_iff {c : Cache K V σ B} {k : K} {v : V} :
    c.conflicts (k, v) = true ↔ ∃ u, c.store.get? k = some u ∧ (u == v) = false := by
  rw [conflicts]
  cases c.store.get? k <;> simp

/-- A pass that is turned down is only counted. -/
theorem publish_false_resetCounters {c c' : Cache K V σ B} {entries : List (K × V)}
    (h : c.publish entries = (false, c')) : c'.resetCounters = c.resetCounters := by
  rw [publish] at h
  split at h
  · obtain ⟨-, rfl⟩ := Prod.mk.inj h
    rfl
  · simp at h

/-- The second cache is the first one after the recorded values of a context were published. -/
structure Gains (c : Cache K V σ B) (x : Context K V σ B) (c' : Cache K V σ B) : Prop where
  config : c'.config = c.config
  inFlight : c'.inFlight = c.inFlight
  /-- The keys without a value have got the recorded one. -/
  store : ∀ k, c'.store.get? k = (c.store.get? k).or (x.get? k)
  /-- The remembered failures of these keys are forgotten. -/
  failures : ∀ k, c'.failures.get? k =
    if c.store.get? k = none ∧ (x.get? k).isSome = true then none else c.failures.get? k

/-- Publication does what it is for, and takes no claim back. -/
theorem gains_of_publish {c c' : Cache K V σ B} {x : Context K V σ B}
    (h : c.publish x.recorded = (true, c')) : c.Gains x c' := by
  have hstore (k : K) : c'.store.get? k = (c.store.get? k).or (x.get? k) := by
    rw [publish_get? x.nodup_recorded h, x.lookup_recorded]
  have hconfig := publish_config h
  rw [publish] at h
  split at h
  · simp at h
  · obtain ⟨-, rfl⟩ := Prod.mk.inj h
    refine ⟨hconfig, rfl, hstore, fun k => ?_⟩
    have hfresh : (k ∈ (x.recorded.filter fun e => !c.store.contains e.1).map Prod.fst) ↔
        c.store.get? k = none ∧ (x.get? k).isSome = true := by
      simp only [List.mem_map, List.mem_filter, Table.contains, Bool.not_eq_true',
        Option.isSome_eq_false_iff, Option.isNone_iff_eq_none, Option.isSome_iff_exists]
      constructor
      · rintro ⟨⟨l, v⟩, ⟨hl, hnone⟩, rfl⟩
        exact ⟨hnone, v, Context.get?_eq_some_iff.2 ((x.mem_recorded l v).1 hl)⟩
      · rintro ⟨hnone, v, hv⟩
        exact ⟨(k, v), ⟨(x.mem_recorded k v).2 (Context.get?_eq_some_iff.1 hv), hnone⟩, rfl⟩
    have herase := Table.get?_eraseAll c.failures
      ((x.recorded.filter fun e => !c.store.contains e.1).map Prod.fst) k
    rw [if_congr hfresh rfl rfl] at herase
    exact herase

/-- A commit is counted by its answer. -/
theorem publish_counters {c c' : Cache K V σ B} {entries : List (K × V)} {b : Bool}
    (h : c.publish entries = (b, c')) :
    c'.counters = c.counters.count (if b then .commit else .commitConflict) := by
  rw [publish] at h
  split at h <;>
    obtain ⟨rfl, rfl⟩ := Prod.mk.inj h <;>
    rfl

omit [BEq V] in
/-- The caches differ at most in the order of their tables. -/
structure Alike (c c' : Cache K V σ B) : Prop where
  config : c.config = c'.config
  store : ∀ k, c.store.get? k = c'.store.get? k
  failures : ∀ k, c.failures.get? k = c'.failures.get? k
  inFlight : c.inFlight = c'.inFlight
  counters : c.counters = c'.counters

omit [BEq V] in
/-- Every cache is like itself. -/
theorem Alike.refl (c : Cache K V σ B) : c.Alike c :=
  ⟨rfl, fun _ => rfl, fun _ => rfl, rfl, rfl⟩

/-- What publication comes to depends only on which value is recorded for which key. -/
theorem alike_of_publish {c c' c₂ : Cache K V σ B} {x y : Context K V σ B} {b : Bool}
    (h : c.publish x.recorded = (b, c')) (h₂ : c.publish y.recorded = (b, c₂))
    (hsame : ∀ k, y.get? k = x.get? k) : c₂.Alike c' := by
  have hcounters : c₂.counters = c'.counters := by
    rw [publish_counters h, publish_counters h₂]
  cases b with
  | false =>
      have hunchanged : c₂.resetCounters = c'.resetCounters := by
        rw [publish_false_resetCounters h, publish_false_resetCounters h₂]
      exact ⟨congrArg (·.config) hunchanged, fun k => congrArg (·.store.get? k) hunchanged,
        fun k => congrArg (·.failures.get? k) hunchanged, congrArg (·.inFlight) hunchanged,
        hcounters⟩
  | true =>
      have hgains := gains_of_publish h
      have hgains₂ := gains_of_publish h₂
      refine ⟨hgains₂.config.trans hgains.config.symm, fun k => ?_, fun k => ?_,
        hgains₂.inFlight.trans hgains.inFlight.symm, hcounters⟩
      · rw [hgains₂.store, hgains.store, hsame]
      · rw [hgains₂.failures, hgains.failures, hsame]

end Cache

/-! ### Commits -/

namespace World

variable [DecidableEq K] [BEq V]

/-- A different value is published in the cache for a key that the context has recorded. -/
def Contradicts (w : World K N V σ B) (c : CacheId) (context : Context K V σ B) : Prop :=
  ∃ k u v, context.get? k = some v ∧ w.stored c k = some u ∧ (u == v) = false

/-- A conflict among the recorded values is a contradiction to what is published. -/
theorem any_conflicts_iff {w : World K N V σ B} {c : CacheId} {cache : Cache K V σ B}
    (hcache : w.cache? c = some cache) (context : Context K V σ B) :
    context.recorded.any cache.conflicts = true ↔ w.Contradicts c context := by
  rw [List.any_eq_true, Contradicts]
  constructor
  · rintro ⟨⟨k, v⟩, hmem, hconflict⟩
    obtain ⟨u, hu, hdiffer⟩ := Cache.conflicts_eq_true_iff.1 hconflict
    rw [Context.mem_recorded] at hmem
    exact ⟨k, u, v, Context.get?_eq_some_iff.2 hmem, by rw [stored_of_cache? hcache, hu], hdiffer⟩
  · rintro ⟨k, u, v, hv, hu, hdiffer⟩
    rw [Context.get?_eq_some_iff, ← Context.mem_recorded] at hv
    rw [stored_of_cache? hcache] at hu
    exact ⟨(k, v), hv, Cache.conflicts_eq_true_iff.2 ⟨u, hu, hdiffer⟩⟩

variable [ToString K] {w w' : World K N V σ B} {x : ContextId} {context : Context K V σ B}
  {c : CacheId} {cache : Cache K V σ B}

/-- A commit is refused with the refusal of its context. -/
theorem commit_of_refusal {e : Violation} (hx : w.context? x = some context)
    (h : context.refusal = some e) : w.commit x = some (.error e, w) := by
  simp [commit, hx, h]

/-- Without a parent there is nowhere to commit to. -/
theorem commit_of_detached (hx : w.context? x = some context) (h : context.refusal = none)
    (hnone : context.parent = none) : w.commit x = some (.error .detachedCommit, w) := by
  simp [commit, hx, h, hnone]

/-- A commit that is not refused is the publication of the recorded values. -/
theorem commit_of_settled (hx : w.context? x = some context) (h : context.refusal = none)
    (hc : context.parent = some c) (hcache : w.cache? c = some cache) :
    w.commit x = some (.ok (cache.publish context.recorded).1,
      w.setCache c (cache.publish context.recorded).2) := by
  simp [commit, hx, h, hc, onCache, hcache]

/-- A commit that is not refused is turned down for a contradiction, and for nothing else. -/
theorem commit_decided {r : Except Violation Bool} (hx : w.context? x = some context)
    (hnone : context.refusal = none) (hc : context.parent = some c)
    (hcache : w.cache? c = some cache) (h : w.commit x = some (r, w')) :
    (r = .ok false ∧ w.Contradicts c context) ∨ (r = .ok true ∧ ¬ w.Contradicts c context) := by
  have hcommit := commit_of_settled hx hnone hc hcache
  obtain ⟨hr, -⟩ := Prod.mk.inj (Option.some.inj (h.symm.trans hcommit))
  rw [hr, Cache.publish_fst, ← any_conflicts_iff hcache]
  cases context.recorded.any cache.conflicts <;> simp

/-- A commit ends in one of three ways. -/
theorem commit_cases (hx : w.context? x = some context)
    (hparent : ∀ c, context.parent = some c → ∃ cache, w.cache? c = some cache) :
    (∃ e, context.refusal = some e ∧ w.commit x = some (.error e, w)) ∨
      (context.refusal = none ∧ context.parent = none ∧
        w.commit x = some (.error .detachedCommit, w)) ∨
      ∃ c cache, context.refusal = none ∧ context.parent = some c ∧ w.cache? c = some cache ∧
        w.commit x = some (.ok (cache.publish context.recorded).1,
          w.setCache c (cache.publish context.recorded).2) := by
  cases h : context.refusal with
  | some e => exact Or.inl ⟨e, rfl, commit_of_refusal hx h⟩
  | none =>
      cases hc : context.parent with
      | none => exact Or.inr (Or.inl ⟨rfl, rfl, commit_of_detached hx h hc⟩)
      | some c =>
          obtain ⟨cache, hcache⟩ := hparent c hc
          exact Or.inr (Or.inr ⟨c, cache, rfl, rfl, hcache, commit_of_settled hx h hc hcache⟩)

/-- A commit that does not succeed leaves values and remembered failures as they are. -/
theorem commit_unchanged {r : Except Violation Bool} (h : w.commit x = some (r, w'))
    (hr : r ≠ .ok true) : w'.ledger = w.ledger := by
  rcases r with e | _ | _
  · rw [commit_error h]
  · obtain ⟨context, c, cache, cache', -, -, hcache, -, hpublish, rfl⟩ := commit_inv h
    exact ledger_setCache_of_eq hcache (Cache.publish_false_resetCounters hpublish)
  · exact absurd rfl hr

/-- A commit leaves every context as it is. -/
theorem commit_contexts {r : Except Violation Bool} (h : w.commit x = some (r, w')) :
    w'.contexts = w.contexts := by
  cases r with
  | error e => rw [commit_error h]
  | ok b =>
      obtain ⟨context, c, cache, cache', -, -, -, -, -, rfl⟩ := commit_inv h
      rfl

/-- A commit that succeeds gives every recorded key without a value the recorded one, and forgets
the remembered failures of exactly these keys. -/
theorem commit_inserts (hx : w.context? x = some context) (hc : context.parent = some c)
    (h : w.commit x = some (.ok true, w')) :
    (∀ k, w'.stored c k = (w.stored c k).or (context.get? k)) ∧
      (∀ k, w'.remembered c k = if w.stored c k = none ∧ (context.get? k).isSome = true then none
        else w.remembered c k) ∧
      ∀ d, d ≠ c → w'.ledger d = w.ledger d := by
  obtain ⟨context', d, cache, cache', hx', hd, hcache, -, hpublish, rfl⟩ := commit_inv h
  obtain rfl : context = context' := Option.some.inj (hx.symm.trans hx')
  obtain rfl : c = d := Option.some.inj (hc.symm.trans hd)
  have hcache' : (w.setCache c cache').cache? c = some cache' := cache?_setCache_self hcache _
  have hgains := Cache.gains_of_publish hpublish
  refine ⟨fun k => ?_, fun k => ?_, fun d hd => ?_⟩
  · rw [stored_of_cache? hcache', stored_of_cache? hcache, hgains.store]
  · rw [remembered_of_cache? hcache', remembered_of_cache? hcache, stored_of_cache? hcache,
      hgains.failures]
  · rw [ledger_setCache hcache, Function.update_of_ne hd]

end World

/-! ### The decision -/

section Decision

variable [DecidableEq K] [BEq V] [ToString K] {w : World K N V σ B} {x : ContextId}
  {context : Context K V σ B}

/-- The answer to a commit does not depend on the order in which the entries are listed, but for
the key that a refusal names. -/
theorem World.commit_answer_of_perm {w' : World K N V σ B} {r : Except Violation Bool}
    (hx : w.context? x = some context)
    (hparent : ∀ c, context.parent = some c → ∃ cache, w.cache? c = some cache)
    (h : w.commit x = some (r, w')) {other : Context K V σ B}
    (hentries : other.entries.toList.Perm context.entries.toList)
    (hsame : other.parent = context.parent) :
    ∃ r₂ w₂, (w.setContext x other).commit x = some (r₂, w₂) ∧
      (r₂ = r ∨ ∃ e e₂, context.NamesInFlight e ∧ context.NamesInFlight e₂ ∧
        r = .error e ∧ r₂ = .error e₂) := by
  have hother : (w.setContext x other).context? x = some other := context?_setContext_self hx _
  rcases commit_cases hx hparent with ⟨e, he, hcommit⟩ | ⟨hnone, hdetached, hcommit⟩ |
    ⟨c, cache, hnone, hc, hcache, hcommit⟩
  · obtain ⟨rfl, -⟩ := Prod.mk.inj (Option.some.inj (hcommit.symm.trans h))
    obtain ⟨e₂, he₂⟩ := Option.ne_none_iff_exists'.1 fun hnone => by
      simp [Context.refusal_eq_none_of_perm hentries.symm hnone] at he
    exact ⟨_, _, commit_of_refusal hother he₂, Or.inr ⟨e, e₂,
      Context.namesInFlight_of_refusal he,
      (Context.namesInFlight_of_refusal he₂).of_perm hentries, rfl, rfl⟩⟩
  · obtain ⟨rfl, -⟩ := Prod.mk.inj (Option.some.inj (hcommit.symm.trans h))
    have hnone₂ := Context.refusal_eq_none_of_perm hentries hnone
    exact ⟨_, _, commit_of_detached hother hnone₂ (hsame.trans hdetached), Or.inl rfl⟩
  · obtain ⟨rfl, -⟩ := Prod.mk.inj (Option.some.inj (hcommit.symm.trans h))
    have hnone₂ := Context.refusal_eq_none_of_perm hentries hnone
    have hrecorded : other.recorded.Perm context.recorded := hentries.filterMap _
    have hcommit₂ := commit_of_settled hother hnone₂ (hsame.trans hc) hcache
    rw [Cache.publish_fst, hrecorded.any_eq, ← Cache.publish_fst] at hcommit₂
    exact ⟨_, _, hcommit₂, Or.inl rfl⟩

/-- The caches after a commit do not depend on the order in which the entries are listed, but for
the order of their own tables. -/
theorem World.commit_alike_of_perm {w' w₂ : World K N V σ B} {r r₂ : Except Violation Bool}
    (hx : w.context? x = some context) (h : w.commit x = some (r, w'))
    {other : Context K V σ B} (hentries : other.entries.toList.Perm context.entries.toList)
    (hparent : other.parent = context.parent)
    (h₂ : (w.setContext x other).commit x = some (r₂, w₂)) (hr : ∀ b, r = .ok b ↔ r₂ = .ok b)
    (d : CacheId) : Option.Rel Cache.Alike (w₂.cache? d) (w'.cache? d) := by
  have hother : (w.setContext x other).context? x = some other := context?_setContext_self hx _
  have hsame (found : Option (Cache K V σ B)) : Option.Rel Cache.Alike found found := by
    cases found with
    | none => exact .none
    | some cache => exact .some (Cache.Alike.refl cache)
  cases r with
  | error e =>
      cases r₂ with
      | error e₂ =>
          rw [commit_error h, commit_error h₂]
          exact hsame (w.cache? d)
      | ok b => simp at hr
  | ok b =>
      obtain rfl := (hr b).1 rfl
      obtain ⟨context', c, cache, cache', hx', hc, hcache, -, hpublish, rfl⟩ := commit_inv h
      obtain ⟨other', c₂, cache₂, cache₂', hx₂, hc₂, hcache₂, -, hpublish₂, rfl⟩ := commit_inv h₂
      obtain rfl : context = context' := Option.some.inj (hx.symm.trans hx')
      obtain rfl : other = other' := Option.some.inj (hother.symm.trans hx₂)
      obtain rfl : c = c₂ := Option.some.inj (hc.symm.trans (hparent.symm.trans hc₂))
      obtain rfl : cache = cache₂ := Option.some.inj (hcache.symm.trans hcache₂)
      rw [cache?_setCache, cache?_setCache, cache?_setContext, cache?_setContext, hcache]
      by_cases hd : c = d
      · rw [if_pos hd, if_pos hd]
        refine .some (Cache.alike_of_publish hpublish hpublish₂ fun k => ?_)
        rw [Context.get?, Context.get?, Table.get?_of_perm hentries]
      · rw [if_neg hd, if_neg hd]
        exact hsame (w.cache? d)

/-- A commit is all or nothing, and decides exactly these cases. It is refused if and only if a
key is in flight, which the refusal names, or there is no parent. Otherwise it is turned down if
and only if a different value is published for a recorded key, and it succeeds if there is none.

Unless it succeeds, no cache changes but for its counters. If it succeeds, exactly the recorded
keys without a published value are given the recorded one and lose their remembered failure. No
context changes.

Whether a commit is refused, turned down or made is the same for every order of the entries, and so
are the caches afterwards. The answer is the same too, unless several keys are in flight: then the
refusal names one of them, and each of them is named in some order. -/
theorem commit_decides (hx : w.context? x = some context)
    (hparent : ∀ c, context.parent = some c → ∃ cache, w.cache? c = some cache) :
    ∃ r w', w.commit x = some (r, w') ∧
      ((∃ e, r = .error e) ↔ (∃ k, context.InFlight k) ∨ context.parent = none) ∧
      ((∃ k, context.InFlight k) → ∃ e, context.NamesInFlight e ∧ r = .error e) ∧
      (∀ k, (∀ l, context.InFlight l → l = k) →
        (context.entries.get? k = some .pending →
          r = .error (.pendingAtCommit (toString k))) ∧
        ∀ p, context.entries.get? k = some (.placeholderIssued p) →
          r = .error (.unresolvedPlaceholder (toString k))) ∧
      ((∀ k, ¬ context.InFlight k) → context.parent = none → r = .error .detachedCommit) ∧
      (∀ c, (∀ k, ¬ context.InFlight k) → context.parent = some c →
        (r = .ok false ↔ w.Contradicts c context) ∧
        (r = .ok true ↔ ¬ w.Contradicts c context)) ∧
      (r ≠ .ok true → w'.ledger = w.ledger) ∧
      (r = .ok true → ∀ c, context.parent = some c →
        (∀ k, w'.stored c k = (w.stored c k).or (context.get? k)) ∧
        (∀ k, w'.remembered c k =
          if w.stored c k = none ∧ (context.get? k).isSome = true then none
          else w.remembered c k) ∧
        ∀ d, d ≠ c → w'.ledger d = w.ledger d) ∧
      w'.contexts = w.contexts ∧
      (∀ other : Context K V σ B, other.entries.toList.Perm context.entries.toList →
        other.parent = context.parent →
        ∃ r₂ w₂, (w.setContext x other).commit x = some (r₂, w₂) ∧
          (r₂ = r ∨ ∃ e e₂, context.NamesInFlight e ∧ context.NamesInFlight e₂ ∧
            r = .error e ∧ r₂ = .error e₂) ∧
          ((∀ k l, context.InFlight k → context.InFlight l → k = l) → r₂ = r) ∧
          ∀ d, Option.Rel Cache.Alike (w₂.cache? d) (w'.cache? d)) ∧
      ∀ e, context.NamesInFlight e → ∃ other : Context K V σ B,
        other.entries.toList.Perm context.entries.toList ∧ other.parent = context.parent ∧
        (w.setContext x other).commit x = some (.error e, w.setContext x other) := by
  have hsettled := context.refusal_eq_none_iff_settled
  obtain ⟨r, w', hcommit⟩ : ∃ r w', w.commit x = some (r, w') := by
    rcases World.commit_cases hx hparent with ⟨e, -, h⟩ | ⟨-, -, h⟩ | ⟨c, cache, -, -, -, h⟩ <;>
      exact ⟨_, _, h⟩
  have hrefused {e : Violation} (he : context.refusal = some e) : r = .error e := by
    have h := World.commit_of_refusal hx he
    exact (Prod.mk.inj (Option.some.inj (hcommit.symm.trans h))).1
  have hnamed (hflight : ∃ k, context.InFlight k) :
      ∃ e, context.NamesInFlight e ∧ r = .error e := by
    obtain ⟨k, hk⟩ := hflight
    obtain ⟨e, he⟩ := Option.ne_none_iff_exists'.1 fun hnone => hsettled.1 hnone k hk
    exact ⟨e, Context.namesInFlight_of_refusal he, hrefused he⟩
  have hsole {k : K} {e : Violation} (sole : ∀ l, context.InFlight l → l = k)
      (he : context.NamesInFlight e) : r = .error e :=
    hrefused (Context.refusal_eq_of_sole
      (fun l m hl hm => (sole l hl).trans (sole m hm).symm) he)
  have hdetached (hnone : context.refusal = none) (hd : context.parent = none) :
      r = .error .detachedCommit := by
    have h := World.commit_of_detached hx hnone hd
    exact (Prod.mk.inj (Option.some.inj (hcommit.symm.trans h))).1
  have hdecided (c : CacheId) (hnone : context.refusal = none) (hc : context.parent = some c) :
      (r = .ok false ∧ w.Contradicts c context) ∨ (r = .ok true ∧ ¬ w.Contradicts c context) := by
    obtain ⟨cache, hcache⟩ := hparent c hc
    exact World.commit_decided hx hnone hc hcache hcommit
  refine ⟨r, w', hcommit, ⟨?_, ?_⟩, hnamed,
    fun k sole => ⟨fun hk => hsole sole (.pending hk), fun p hk => hsole sole (.placeholder hk)⟩,
    fun hflight hnone => hdetached (hsettled.2 hflight) hnone, fun c hflight hc => ?_,
    World.commit_unchanged hcommit, ?_, World.commit_contexts hcommit,
    fun other hentries hsame => ?_, fun e he => ?_⟩
  · rintro ⟨e, rfl⟩
    by_contra hnot
    rw [not_or, not_exists] at hnot
    obtain ⟨c, hc⟩ := Option.ne_none_iff_exists'.1 hnot.2
    rcases hdecided c (hsettled.2 hnot.1) hc with ⟨hr, -⟩ | ⟨hr, -⟩ <;> simp at hr
  · rintro (hflight | hnone)
    · obtain ⟨e, -, he⟩ := hnamed hflight
      exact ⟨e, he⟩
    · cases he : context.refusal with
      | some e => exact ⟨e, hrefused he⟩
      | none => exact ⟨_, hdetached he hnone⟩
  · rcases hdecided c (hsettled.2 hflight) hc with ⟨rfl, hcontra⟩ | ⟨rfl, hcontra⟩ <;>
      simp [hcontra]
  · rintro rfl c hc
    exact World.commit_inserts hx hc hcommit
  · obtain ⟨r₂, w₂, h₂, hr⟩ := World.commit_answer_of_perm hx hparent hcommit hentries hsame
    refine ⟨r₂, w₂, h₂, hr, fun sole => ?_, fun d => ?_⟩
    -- Two refusals can only differ in the key that they name.
    · rcases hr with hr | ⟨e, e₂, he, he₂, rfl, rfl⟩
      · exact hr
      · rw [he.unique sole he₂]
    · refine World.commit_alike_of_perm hx hcommit hentries hsame h₂ (fun b => ?_) d
      rcases hr with rfl | ⟨e, e₂, -, -, rfl, rfl⟩ <;> simp
  · obtain ⟨other, hentries, hsame, hrefusal⟩ := he.exists_order
    have hother : (w.setContext x other).context? x = some other :=
      World.context?_setContext_self hx _
    exact ⟨other, hentries, hsame, World.commit_of_refusal hother hrefusal⟩

end Decision

/-! ### A pass with an old value and a new one, and a pass with two keys in flight -/

namespace MixedEntries

/-- The cache has a value for `1` and remembers a failure of `2`. -/
def cache : Cache Nat Nat Unit Unit :=
  { config := {}
    store := Table.empty.insert 1 10
    failures := Table.empty.insert 2 ⟨.counted 1, "late"⟩ }

/-- The pass has recorded the published value of `1` again, and a value for `2`. -/
def settled : Context Nat Nat Unit Unit :=
  { entries := (Table.empty.insert 1 (.resolved 10)).insert 2 (.resolved 20)
    parent := some ⟨0⟩ }

/-- The same pass, with its entries in the other order. -/
def reversed : Context Nat Nat Unit Unit :=
  { settled with entries := (Table.empty.insert 2 (.resolved 20)).insert 1 (.resolved 10) }

/-- The pass waits for a value of `1` and for the placeholder of `2`. -/
def waiting : Context Nat Nat Unit Unit :=
  { entries := (Table.empty.insert 1 .pending).insert 2
      (.placeholderIssued ⟨.sentinel, 0, ⟨0⟩⟩)
    parent := some ⟨0⟩ }

/-- One cache, and both passes on it. -/
def world : World Nat Unit Nat Unit Unit :=
  { caches := #[cache], contexts := #[settled, waiting], client := () }

/-- The contexts of the session have the one cache for a parent. -/
theorem exists_parent {x : Context Nat Nat Unit Unit} (h : x.parent = some ⟨0⟩) (c : CacheId)
    (hc : x.parent = some c) : ∃ cache, world.cache? c = some cache := by
  obtain rfl := Option.some.inj (h.symm.trans hc)
  exact ⟨cache, rfl⟩

/-- The first commit succeeds. The new value is published and the failure of its key forgotten, and
so it is if the entries are listed in the other order. The second commit is refused, and names one
key or the other depending on their order. -/
theorem commits_decided :
    (world.context? ⟨0⟩ = some settled ∧
      (∀ c, settled.parent = some c → ∃ cache, world.cache? c = some cache) ∧
      ∃ w', world.commit ⟨0⟩ = some (.ok true, w') ∧ w'.stored ⟨0⟩ 2 = some 20 ∧
        w'.remembered ⟨0⟩ 2 = none ∧
        ∃ w₂, (world.setContext ⟨0⟩ reversed).commit ⟨0⟩ = some (.ok true, w₂) ∧
          ∀ d, Option.Rel Cache.Alike (w₂.cache? d) (w'.cache? d)) ∧
    world.context? ⟨1⟩ = some waiting ∧
      (∀ c, waiting.parent = some c → ∃ cache, world.cache? c = some cache) ∧
      world.commit ⟨1⟩ = some (.error (.pendingAtCommit "1"), world) ∧
      ∃ other : Context Nat Nat Unit Unit, other.entries.toList.Perm waiting.entries.toList ∧
        (world.setContext ⟨1⟩ other).commit ⟨1⟩ =
          some (.error (.unresolvedPlaceholder "2"), world.setContext ⟨1⟩ other) := by
  refine ⟨?settled, ?waiting⟩
  case settled =>
    have hx : world.context? ⟨0⟩ = some settled := rfl
    have hparent := exists_parent (x := settled) rfl
    obtain ⟨r, w', hcommit, -, -, -, -, hdecided, -, hinserts, -, horder, -⟩ :=
      commit_decides hx hparent
    have hsettled : ∀ k, ¬ settled.InFlight k := settled.refusal_eq_none_iff_settled.1 rfl
    have hcache : world.cache? ⟨0⟩ = some cache := rfl
    have hagrees : ¬ world.Contradicts ⟨0⟩ settled := by
      rw [← World.any_conflicts_iff hcache]
      decide
    obtain rfl := (hdecided ⟨0⟩ hsettled rfl).2.2 hagrees
    obtain ⟨hstored, hremembered, -⟩ := hinserts rfl ⟨0⟩ rfl
    obtain ⟨r₂, w₂, hcommit₂, -, hsole, halike⟩ := horder reversed (List.Perm.swap ..) rfl
    obtain rfl := hsole fun k _ hk => absurd hk (hsettled k)
    have hnew : w'.stored ⟨0⟩ 2 = some 20 := hstored 2
    exact ⟨hx, hparent, w', hcommit, hnew, hremembered 2, w₂, hcommit₂, halike⟩
  case waiting =>
    have hx : world.context? ⟨1⟩ = some waiting := rfl
    have hparent := exists_parent (x := waiting) rfl
    obtain ⟨r, w', -, -, -, -, -, -, -, -, -, -, hnamed⟩ := commit_decides hx hparent
    have hplaceholder : waiting.NamesInFlight (.unresolvedPlaceholder "2") :=
      .placeholder (k := 2) rfl
    obtain ⟨other, hentries, -, hother⟩ := hnamed _ hplaceholder
    exact ⟨hx, hparent, rfl, other, hentries, hother⟩

end MixedEntries

end DerivationCache
