import DerivationCache.Proofs.CommitDecision
import DerivationCache.Proofs.Operation

/-!
# Commits in any order

Several contexts of one cache, none of which has a key in flight, are committed one after another.
A commit publishes all that its context has recorded, or nothing, and a published value is never
replaced. So what is published in the end is what was published at first, together with what the
contexts whose commits succeeded have recorded (`World.Merges`), and the order matters only where
contexts contradict each other.

A context contradicts the cache or it does not, and commits of contexts that agree with it do not
change that. This is why the answers do not depend on the order if all contexts agree.

## Main results

* `World.commit_due`: a context without keys in flight is answered, and what its commit publishes.
* `World.commitAll_merges`: what a series of commits publishes, which failures it forgets, and that
  contexts that agree are answered by the cache as it was at first.
* `first_committer_wins`: both for every order, and at most one of two contexts that disagree.
-/

namespace DerivationCache

variable {K N V σ B : Type} [DecidableEq K] [BEq V]

namespace World

/-- The value that a context has recorded for a key differs from the published one. -/
def Opposes (w : World K N V σ B) (c : CacheId) (x : ContextId) : Prop :=
  ∃ k u v, w.keyState x k = some (.resolved v) ∧ w.stored c k = some u ∧ (u == v) = false

/-- Two contexts have recorded equal values wherever both have recorded one. -/
def Agree (w : World K N V σ B) (x y : ContextId) : Prop :=
  ∀ k u v, w.keyState x k = some (.resolved u) → w.keyState y k = some (.resolved v) →
    (u == v) = true

omit [BEq V] in
/-- The context commits into the cache, and has no key in flight. -/
structure Due (w : World K N V σ B) (c : CacheId) (x : ContextId) : Prop where
  parent : w.parent? x = some c
  ready : w.Ready x

/-- What becomes of a cache when contexts are committed, and each of them is answered like this. -/
structure Merges (w : World K N V σ B) (c : CacheId) (log : List (ContextId × Bool))
    (w' : World K N V σ B) : Prop where
  contexts : w'.contexts = w.contexts
  others : ∀ d, d ≠ c → w'.ledger d = w.ledger d
  kept : ∀ k v, w.stored c k = some v → w'.stored c k = some v
  /-- All that a context whose commit succeeded has recorded is published. -/
  full : ∀ x k v, (x, true) ∈ log → w.keyState x k = some (.resolved v) →
    ∃ u, w'.stored c k = some u ∧ (u == v) = true
  /-- Nothing else is. -/
  source : ∀ k u, w'.stored c k = some u → w.stored c k = some u ∨
    ∃ x, (x, true) ∈ log ∧ w.keyState x k = some (.resolved u)
  /-- The failures of exactly the keys that have got a value are forgotten. -/
  forgets : ∀ k, w'.remembered c k =
    if w.stored c k = none ∧ (w'.stored c k).isSome = true then none else w.remembered c k

variable {w w₁ w' : World K N V σ B} {c : CacheId} {x : ContextId}

omit [BEq V] in
/-- Whether a commit is due depends on the contexts alone. -/
theorem Due.congr (h : w.Due c x) (hcontexts : w'.contexts = w.contexts) : w'.Due c x where
  parent := (parent?_congr hcontexts x).trans h.parent
  ready k e he := h.ready k e ((keyState_congr hcontexts x k).symm.trans he)

/-- Whether two contexts agree depends on the contexts alone. -/
theorem Agree.congr {y : ContextId} (h : w.Agree x y) (hcontexts : w'.contexts = w.contexts) :
    w'.Agree x y := fun k u v hu hv =>
  h k u v ((keyState_congr hcontexts x k).symm.trans hu)
    ((keyState_congr hcontexts y k).symm.trans hv)

namespace Merges

/-- Where nothing is committed, nothing is published. -/
theorem refl (w : World K N V σ B) (c : CacheId) : w.Merges c [] w where
  contexts := rfl
  others _ _ := rfl
  kept _ _ h := h
  full _ _ _ h := by simp at h
  source _ _ h := Or.inl h
  forgets k := by
    rw [if_neg]
    rintro ⟨hnone, hsome⟩
    simp [hnone] at hsome

/-- Commits before and after a point in time. -/
theorem trans {log log' : List (ContextId × Bool)} (h : w.Merges c log w₁)
    (h' : w₁.Merges c log' w') : w.Merges c (log ++ log') w' where
  contexts := h'.contexts.trans h.contexts
  others d hd := (h'.others d hd).trans (h.others d hd)
  kept k v hv := h'.kept k v (h.kept k v hv)
  full x k v hx hv := by
    rcases List.mem_append.1 hx with hx | hx
    · obtain ⟨u, hu, huv⟩ := h.full x k v hx hv
      exact ⟨u, h'.kept k u hu, huv⟩
    · exact h'.full x k v hx ((keyState_congr h.contexts x k).trans hv)
  source k u hu := by
    rcases h'.source k u hu with hmid | ⟨x, hx, hstate⟩
    · exact (h.source k u hmid).imp id fun ⟨x, hx, hstate⟩ =>
        ⟨x, List.mem_append_left log' hx, hstate⟩
    · exact Or.inr ⟨x, List.mem_append_right log hx,
        (keyState_congr h.contexts x k).symm.trans hstate⟩
  forgets k := by
    rw [h'.forgets, h.forgets]
    cases hbefore : w.stored c k with
    | some v => simp [h.kept k v hbefore]
    | none =>
        cases hmid : w₁.stored c k with
        | some v => simp [h'.kept k v hmid]
        | none => simp

/-- Commits of contexts that agree with another one do not change whether that one opposes the
cache. -/
theorem opposes_iff {log : List (ContextId × Bool)} (h : w.Merges c log w₁)
    (hagree : ∀ y b, (y, b) ∈ log → w.Agree y x) : w₁.Opposes c x ↔ w.Opposes c x := by
  constructor
  · rintro ⟨k, u, v, hv, hu, hdiffer⟩
    have hv₀ := (keyState_congr h.contexts x k).symm.trans hv
    rcases h.source k u hu with hold | ⟨y, hy, hstate⟩
    · exact ⟨k, u, v, hv₀, hold, hdiffer⟩
    · simp [hagree y true hy k u v hstate hv₀] at hdiffer
  · rintro ⟨k, u, v, hv, hu, hdiffer⟩
    exact ⟨k, u, v, (keyState_congr h.contexts x k).trans hv, h.kept k u hu, hdiffer⟩

/-- Two contexts that have recorded different values are not both answered with success. -/
theorem not_both [EquivBEq V] {log : List (ContextId × Bool)} (h : w.Merges c log w')
    {x y : ContextId} {k : K} {u v : V}
    (hu : w.keyState x k = some (.resolved u)) (hv : w.keyState y k = some (.resolved v))
    (hdiffer : (u == v) = false) : ¬ ((x, true) ∈ log ∧ (y, true) ∈ log) := by
  rintro ⟨hx, hy⟩
  obtain ⟨a, ha, hau⟩ := h.full x k u hx hu
  obtain ⟨a', ha', hav⟩ := h.full y k v hy hv
  obtain rfl : a = a' := Option.some.inj (ha.symm.trans ha')
  simp [BEq.trans (BEq.symm hau) hav] at hdiffer

/-- What is published in the end depends only on which commits succeed, if these contexts agree. -/
theorem stored_rel [ReflBEq V] {w₂ : World K N V σ B} {log₁ log₂ : List (ContextId × Bool)}
    (h₁ : w.Merges c log₁ w₁) (h₂ : w.Merges c log₂ w₂)
    (hsame : ∀ x, (x, true) ∈ log₁ ↔ (x, true) ∈ log₂)
    (hagree : ∀ x y, (x, true) ∈ log₁ → (y, true) ∈ log₂ → w.Agree x y) (k : K) :
    Option.Rel (fun u v => (u == v) = true) (w₁.stored c k) (w₂.stored c k) := by
  cases hbefore : w.stored c k with
  | some v =>
      rw [h₁.kept k v hbefore, h₂.kept k v hbefore]
      exact .some ReflBEq.rfl
  | none =>
      have hnew {w' : World K N V σ B} {log : List (ContextId × Bool)} (h : w.Merges c log w')
          {u : V} (hu : w'.stored c k = some u) :
          ∃ x, (x, true) ∈ log ∧ w.keyState x k = some (.resolved u) := by
        refine (h.source k u hu).resolve_left ?_
        simp [hbefore]
      cases hu : w₁.stored c k with
      | none =>
          cases hv : w₂.stored c k with
          | none => exact .none
          | some v =>
              obtain ⟨y, hy, hstate⟩ := hnew h₂ hv
              obtain ⟨u, hu', -⟩ := h₁.full y k v ((hsame y).2 hy) hstate
              simp [hu] at hu'
      | some u =>
          obtain ⟨x, hx, hstate⟩ := hnew h₁ hu
          obtain ⟨v, hv, -⟩ := h₂.full x k u ((hsame x).1 hx) hstate
          obtain ⟨y, hy, hstate'⟩ := hnew h₂ hv
          rw [hv]
          exact .some (hagree x y hx hy k u v hstate hstate')

end Merges

omit [BEq V] in
/-- A commit that nothing in its context refuses is due. -/
theorem due_of_refusal [ToString K] {context : Context K V σ B} (hx : w.context? x = some context)
    (hparent : context.parent = some c) (hrefusal : context.refusal = none) : w.Due c x where
  parent := (parent?_of_context? hx).trans hparent
  ready k e he :=
    context.refusal_eq_none_iff.1 hrefusal k e ((keyState_of_context? hx k).symm.trans he)

/-- Contexts agree if their lists of recorded values do. -/
theorem agree_of_recorded {y : ContextId}
    (h : ∀ p ∈ (w.context? x).elim [] Context.recorded,
      ∀ q ∈ (w.context? y).elim [] Context.recorded, p.1 = q.1 → (p.2 == q.2) = true) :
    w.Agree x y := by
  have hmem {z : ContextId} {k : K} {v : V} (hv : w.keyState z k = some (.resolved v)) :
      (k, v) ∈ (w.context? z).elim [] Context.recorded := by
    obtain ⟨context, hz, hv⟩ := Option.bind_eq_some_iff.1 hv
    rw [hz]
    exact (context.mem_recorded k v).2 hv
  exact fun k u v hu hv => h _ (hmem hu) _ (hmem hv) rfl

/-! ### One commit -/

variable [ToString K]

/-- A context that is due is answered: its commit succeeds, unless it opposes the cache. -/
theorem commit_due [ReflBEq V] (hx : w.Due c x) (hcache : ∃ cache, w.cache? c = some cache) :
    ∃ b w₁, w.commit x = some (.ok b, w₁) ∧ (b = true ↔ ¬ w.Opposes c x) ∧
      w.Merges c [(x, b)] w₁ := by
  obtain ⟨cache, hcache⟩ := hcache
  obtain ⟨context, hcontext, hparent⟩ := Option.bind_eq_some_iff.1 hx.parent
  have hrefusal : context.refusal = none := context.refusal_eq_none_iff.2 fun k e he =>
    hx.ready k e ((keyState_of_context? hcontext k).trans he)
  have hstate (k : K) (v : V) : context.get? k = some v ↔
      w.keyState x k = some (.resolved v) := by
    rw [Context.get?_eq_some_iff, keyState_of_context? hcontext]
  have hopposes : w.Contradicts c context ↔ w.Opposes c x := by
    simp only [Contradicts, Opposes, hstate]
  have hcommit := commit_of_settled hcontext hrefusal hparent hcache
  rw [Cache.publish_fst] at hcommit
  refine ⟨_, _, hcommit, ?_, ?_⟩
  · rw [← hopposes, ← any_conflicts_iff hcache]
    simp
  · cases hanswer : !context.recorded.any cache.conflicts with
    | false =>
        rw [hanswer] at hcommit
        have hledger := commit_unchanged hcommit (by simp)
        have hstored (k : K) : (w.setCache c (cache.publish context.recorded).2).stored c k =
            w.stored c k := by
          rw [stored_eq_ledger, stored_eq_ledger, hledger]
        refine ⟨rfl, fun d _ => by rw [hledger], fun k v hv => (hstored k).trans hv,
          fun y k v hy => by simp at hy, fun k u hu => Or.inl ((hstored k).symm.trans hu),
          fun k => ?_⟩
        rw [remembered_of_ledger (congrFun hledger c), hstored, if_neg]
        rintro ⟨hnone, hsome⟩
        simp [hnone] at hsome
    | true =>
        rw [hanswer] at hcommit
        obtain ⟨hstored, hremembered, hothers⟩ := commit_inserts hcontext hparent hcommit
        refine ⟨rfl, hothers, fun k v hv => by rw [hstored, hv, Option.some_or],
          fun y k v hy hv => ?_, fun k u hu => ?_, fun k => ?_⟩
        · obtain rfl : y = x := by simpa using hy
          exact commit_true hcommit hx.parent hv
        · rw [hstored] at hu
          rcases Option.or_eq_some_iff.1 hu with hold | ⟨-, hnew⟩
          · exact Or.inl hold
          · exact Or.inr ⟨x, List.mem_singleton_self _, (hstate k u).1 hnew⟩
        · rw [hremembered, hstored]
          cases hbefore : w.stored c k <;> simp

/-! ### Series of commits -/

/-- Commits these contexts one after another. Their answers come in the same order. -/
def commitAll (w : World K N V σ B) : List ContextId →
    Option (List (Except Violation Bool) × World K N V σ B)
  | [] => some ([], w)
  | x :: rest => do
    let (answer, w) ← w.commit x
    let (answers, w) ← w.commitAll rest
    return (answer :: answers, w)

/-- The first commit of a series, and then the others. -/
theorem commitAll_cons_eq_some {xs : List ContextId} {answer : Except Violation Bool}
    {answers : List (Except Violation Bool)} :
    w.commitAll (x :: xs) = some (answer :: answers, w') ↔
      ∃ w₁, w.commit x = some (answer, w₁) ∧ w₁.commitAll xs = some (answers, w') := by
  simp only [commitAll, bind, Option.bind_eq_some_iff, Option.pure_def, Option.some.injEq,
    Prod.mk.injEq, List.cons.injEq]
  constructor
  · rintro ⟨⟨_, w₁⟩, hcommit, ⟨_, _⟩, hrest, ⟨rfl, rfl⟩, rfl⟩
    exact ⟨w₁, hcommit, hrest⟩
  · rintro ⟨w₁, hcommit, hrest⟩
    exact ⟨_, hcommit, _, hrest, ⟨rfl, rfl⟩, rfl⟩

/-- After a commit the other contexts are still due, and the cache is still there. -/
theorem Due.rest {b : Except Violation Bool} {xs : List ContextId}
    (hcommit : w.commit x = some (b, w₁)) (hcontexts : w₁.contexts = w.contexts)
    (hdue : ∀ y ∈ x :: xs, w.Due c y) (hcache : ∃ cache, w.cache? c = some cache) :
    (∀ y ∈ xs, w₁.Due c y) ∧ ∃ cache, w₁.cache? c = some cache := by
  obtain ⟨cache, hcache⟩ := hcache
  obtain ⟨cache₁, hcache₁, -⟩ := (commit_obeys hcommit).grows.caches c cache hcache
  exact ⟨fun y hy => (hdue y (List.mem_cons_of_mem x hy)).congr hcontexts, cache₁, hcache₁⟩

/-- Contexts that are due are all answered. -/
theorem commitAll_of_due [ReflBEq V] {xs : List ContextId} (hdue : ∀ x ∈ xs, w.Due c x)
    (hcache : ∃ cache, w.cache? c = some cache) :
    ∃ (log : List (ContextId × Bool)) (w' : World K N V σ B), log.map Prod.fst = xs ∧
      w.commitAll xs = some (log.map fun p => .ok p.2, w') := by
  induction xs generalizing w with
  | nil => exact ⟨[], w, rfl, rfl⟩
  | cons x xs ih =>
      obtain ⟨b, w₁, hcommit, -, hmerges⟩ := commit_due (hdue x (List.mem_cons_self ..)) hcache
      obtain ⟨hdue', hcache'⟩ := Due.rest hcommit hmerges.contexts hdue hcache
      obtain ⟨log, w', rfl, hrest⟩ := ih hdue' hcache'
      exact ⟨(x, b) :: log, w', rfl, commitAll_cons_eq_some.2 ⟨w₁, hcommit, hrest⟩⟩

/-- What the answers say about the cache in the end. If the contexts agree with each other, then
they are answered by the cache as it was at first. -/
theorem commitAll_merges [ReflBEq V] {log : List (ContextId × Bool)}
    (hdue : ∀ x ∈ log.map Prod.fst, w.Due c x) (hcache : ∃ cache, w.cache? c = some cache)
    (h : w.commitAll (log.map Prod.fst) = some (log.map fun p => .ok p.2, w')) :
    w.Merges c log w' ∧
      ((∀ x ∈ log.map Prod.fst, ∀ y ∈ log.map Prod.fst, w.Agree x y) →
        ∀ x b, (x, b) ∈ log → (b = true ↔ ¬ w.Opposes c x)) := by
  induction log generalizing w with
  | nil =>
      obtain ⟨-, rfl⟩ := Prod.mk.inj (Option.some.inj h)
      exact ⟨.refl w c, fun _ _ _ hx => by simp at hx⟩
  | cons p log ih =>
      obtain ⟨x, b⟩ := p
      obtain ⟨w₁, hcommit, hrest⟩ := commitAll_cons_eq_some.1 h
      obtain ⟨b', w₁', hcommit', hb, hmerges⟩ :=
        commit_due (hdue x (List.mem_cons_self ..)) hcache
      obtain ⟨⟨⟩, rfl⟩ := Prod.mk.inj (Option.some.inj (hcommit.symm.trans hcommit'))
      obtain ⟨hdue', hcache'⟩ := Due.rest hcommit hmerges.contexts hdue hcache
      obtain ⟨hmerges', hanswers⟩ := ih hdue' hcache' hrest
      refine ⟨hmerges.trans hmerges', fun hagree y b' hy => ?_⟩
      rcases List.mem_cons.1 hy with hy | hy
      · obtain ⟨rfl, rfl⟩ := Prod.mk.inj hy
        exact hb
      · have hlater := hanswers (fun y hy z hz => (hagree y (List.mem_cons_of_mem x hy) z
          (List.mem_cons_of_mem x hz)).congr hmerges.contexts) y b' hy
        have hy' : y ∈ log.map Prod.fst := List.mem_map_of_mem hy
        rw [hlater, hmerges.opposes_iff fun z b₁ hz => ?_]
        obtain ⟨rfl, -⟩ : z = x ∧ b₁ = b := by simpa using hz
        exact hagree z (List.mem_cons_self ..) y (List.mem_cons_of_mem z hy')

end World

/-! ### Every order -/

section Orders

variable [ToString K] {w : World K N V σ B} {c : CacheId} {xs : List ContextId}

omit [ToString K] [DecidableEq K] [BEq V] in
/-- If a condition on the contexts decides the answers, then the order does not. -/
theorem succeeds_of_perm {P : ContextId → Prop} {log₁ log₂ : List (ContextId × Bool)}
    {x : ContextId} (hperm : (log₁.map Prod.fst).Perm (log₂.map Prod.fst))
    (h₁ : ∀ x b, (x, b) ∈ log₁ → (b = true ↔ P x)) (h₂ : ∀ x b, (x, b) ∈ log₂ → (b = true ↔ P x))
    (hx : (x, true) ∈ log₁) : (x, true) ∈ log₂ := by
  obtain ⟨⟨y, b⟩, hy, rfl⟩ := List.mem_map.1 (hperm.mem_iff.1 (List.mem_map_of_mem hx))
  obtain rfl : b = true := (h₂ y b hy).2 ((h₁ y true hx).1 rfl)
  exact hy

/-- Contexts of one cache, none of which has a key in flight, are committed in some order.

In every order each of them is answered, and the final store is the initial store and all that the
contexts whose commits succeeded have recorded, and nothing of the others. Of two contexts that have
recorded different values for a key at most one is answered with success.

If all of them agree wherever they have recorded the same key, then each context has the same answer
in all orders, and the stores and the remembered failures are the same in the end. -/
theorem first_committer_wins [EquivBEq V] (hcache : ∃ cache, w.cache? c = some cache)
    (hdue : ∀ x ∈ xs, w.Due c x) :
    (∀ ys, ys.Perm xs → ∃ (log : List (ContextId × Bool)) (w' : World K N V σ B),
      log.map Prod.fst = ys ∧ w.commitAll ys = some (log.map fun p => .ok p.2, w') ∧
      w.Merges c log w' ∧
      ∀ x y k u v, w.keyState x k = some (.resolved u) → w.keyState y k = some (.resolved v) →
        (u == v) = false → ¬ ((x, true) ∈ log ∧ (y, true) ∈ log)) ∧
    ((∀ x ∈ xs, ∀ y ∈ xs, w.Agree x y) →
      ∀ (log₁ log₂ : List (ContextId × Bool)) (w₁ w₂ : World K N V σ B),
      (log₁.map Prod.fst).Perm xs → (log₂.map Prod.fst).Perm xs →
      w.commitAll (log₁.map Prod.fst) = some (log₁.map fun p => .ok p.2, w₁) →
      w.commitAll (log₂.map Prod.fst) = some (log₂.map fun p => .ok p.2, w₂) →
      (∀ x b b', (x, b) ∈ log₁ → (x, b') ∈ log₂ → b = b') ∧
      (∀ k, Option.Rel (fun u v => (u == v) = true) (w₁.stored c k) (w₂.stored c k)) ∧
      ∀ k, w₁.remembered c k = w₂.remembered c k) := by
  constructor
  · intro ys hys
    have hdue' : ∀ x ∈ ys, w.Due c x := fun x hx => hdue x (hys.mem_iff.1 hx)
    obtain ⟨log, w', rfl, hcommits⟩ := World.commitAll_of_due hdue' hcache
    have hmerges := (World.commitAll_merges hdue' hcache hcommits).1
    exact ⟨log, w', rfl, hcommits, hmerges,
      fun x y k u v hu hv hdiffer => hmerges.not_both hu hv hdiffer⟩
  · intro hagree log₁ log₂ w₁ w₂ hperm₁ hperm₂ hcommits₁ hcommits₂
    have hmerges {log : List (ContextId × Bool)} {w' : World K N V σ B}
        (hperm : (log.map Prod.fst).Perm xs)
        (hcommits : w.commitAll (log.map Prod.fst) = some (log.map fun p => .ok p.2, w')) :
        w.Merges c log w' ∧ ∀ x b, (x, b) ∈ log → (b = true ↔ ¬ w.Opposes c x) :=
      (World.commitAll_merges (fun x hx => hdue x (hperm.mem_iff.1 hx)) hcache hcommits).imp_right
        fun h => h fun x hx y hy => hagree x (hperm.mem_iff.1 hx) y (hperm.mem_iff.1 hy)
    obtain ⟨hmerges₁, hanswer₁⟩ := hmerges hperm₁ hcommits₁
    obtain ⟨hmerges₂, hanswer₂⟩ := hmerges hperm₂ hcommits₂
    have hperm := hperm₁.trans hperm₂.symm
    have hsame (x : ContextId) : (x, true) ∈ log₁ ↔ (x, true) ∈ log₂ :=
      ⟨succeeds_of_perm hperm hanswer₁ hanswer₂, succeeds_of_perm hperm.symm hanswer₂ hanswer₁⟩
    have hstored := hmerges₁.stored_rel hmerges₂ hsame fun x y hx hy =>
      hagree x (hperm₁.mem_iff.1 (List.mem_map_of_mem hx)) y
        (hperm₂.mem_iff.1 (List.mem_map_of_mem hy))
    have hpublished (k : K) : (w₁.stored c k).isSome = (w₂.stored c k).isSome := by
      have hrel := hstored k
      generalize w₁.stored c k = u, w₂.stored c k = v at hrel
      cases hrel <;> rfl
    refine ⟨fun x b b' hb hb' => ?_, hstored, fun k => ?_⟩
    · rw [Bool.eq_iff_iff, hanswer₁ x b hb, hanswer₂ x b' hb']
    · rw [hmerges₁.forgets, hmerges₂.forgets, hpublished]

end Orders

/-! ### Four passes over one cache -/

namespace FourPasses

/-- The cache has a value for `1` and remembers a failure of `2`. -/
def cache : Cache Nat Nat Unit Unit :=
  { config := {}
    store := Table.empty.insert 1 10
    failures := Table.empty.insert 2 ⟨.counted 1, "late"⟩ }

/-- A pass that has recorded these values. -/
def pass (entries : List (Nat × Nat)) : Context Nat Nat Unit Unit :=
  { entries := entries.foldl (fun t e => t.insert e.1 (.resolved e.2)) .empty, parent := some ⟨0⟩ }

/-- The last pass has recorded another value for `1` than the cache has, and the two in the middle
have recorded different values for `3`. -/
def world : World Nat Unit Nat Unit Unit :=
  { caches := #[cache]
    contexts := #[pass [(2, 20)], pass [(2, 20), (3, 30)], pass [(3, 31)], pass [(1, 11)]]
    client := () }

/-- None of the passes has a key in flight. -/
theorem due : ∀ x ∈ [⟨0⟩, ⟨1⟩, ⟨2⟩, ⟨3⟩], world.Due ⟨0⟩ x := by
  simp only [List.forall_mem_cons]
  refine ⟨?_, ?_, ?_, ?_, by simp⟩ <;>
    exact World.due_of_refusal rfl rfl rfl

/-- The first two passes and the last one agree: the only key that two of them have recorded is
`2`. -/
theorem agree : ∀ x ∈ [⟨0⟩, ⟨1⟩, ⟨3⟩], ∀ y ∈ [⟨0⟩, ⟨1⟩, ⟨3⟩], world.Agree x y := by
  have hrecorded : ∀ x ∈ [⟨0⟩, ⟨1⟩, ⟨3⟩], ∀ y ∈ [⟨0⟩, ⟨1⟩, ⟨3⟩],
      ∀ p ∈ (world.context? x).elim [] Context.recorded,
      ∀ q ∈ (world.context? y).elim [] Context.recorded, p.1 = q.1 → (p.2 == q.2) = true := by
    decide
  exact fun x hx y hy => World.agree_of_recorded (hrecorded x hx y hy)

/-- The two passes in the middle do not. -/
theorem differ : world.keyState ⟨1⟩ 3 = some (.resolved 30) ∧
    world.keyState ⟨2⟩ 3 = some (.resolved 31) := ⟨rfl, rfl⟩

/-- In both orders, one of the two passes that differ is refused. The others are answered alike in
all orders: the last one is refused and the rest succeed, and the failure of `2` is forgotten. -/
theorem first_pass_wins :
    (∃ cache, world.cache? ⟨0⟩ = some cache) ∧
    (∀ x ∈ [⟨0⟩, ⟨1⟩, ⟨2⟩, ⟨3⟩], world.Due ⟨0⟩ x) ∧
    (∀ ys, ys.Perm [⟨1⟩, ⟨2⟩] → ∃ (log : List (ContextId × Bool))
      (w' : World Nat Unit Nat Unit Unit),
      world.commitAll ys = some (log.map fun p => .ok p.2, w') ∧
      ¬ ((⟨1⟩, true) ∈ log ∧ (⟨2⟩, true) ∈ log)) ∧
    ∀ ys, ys.Perm [⟨0⟩, ⟨1⟩, ⟨3⟩] → ∃ (log : List (ContextId × Bool))
      (w' : World Nat Unit Nat Unit Unit),
      world.commitAll ys = some (log.map fun p => .ok p.2, w') ∧
      (∀ x b, (x, b) ∈ log → (b = true ↔ x ≠ ⟨3⟩)) ∧
      w'.stored ⟨0⟩ 1 = some 10 ∧ w'.stored ⟨0⟩ 3 = some 30 ∧ w'.remembered ⟨0⟩ 2 = none := by
  have hcache : ∃ cache, world.cache? ⟨0⟩ = some cache := ⟨cache, rfl⟩
  have hdue {xs : List ContextId} (hxs : xs ⊆ [⟨0⟩, ⟨1⟩, ⟨2⟩, ⟨3⟩]) :
      ∀ x ∈ xs, world.Due ⟨0⟩ x := fun x hx => due x (hxs hx)
  refine ⟨hcache, due, fun ys hys => ?_, fun ys hys => ?_⟩
  · obtain ⟨log, w', -, hcommits, -, hrivals⟩ :=
      (first_committer_wins hcache (hdue (by decide))).1 ys hys
    exact ⟨log, w', hcommits, hrivals _ _ 3 30 31 differ.1 differ.2 rfl⟩
  · obtain ⟨hevery, hagreed⟩ :=
      first_committer_wins hcache (hdue (show [⟨0⟩, ⟨1⟩, ⟨3⟩] ⊆ _ by decide))
    obtain ⟨log, w', rfl, hcommits, hmerges, -⟩ := hevery ys hys
    let log₀ : List (ContextId × Bool) := [(⟨0⟩, true), (⟨1⟩, true), (⟨3⟩, false)]
    obtain ⟨w₀, hfirst, hstored, hremembered⟩ : ∃ w₀,
        world.commitAll (log₀.map Prod.fst) = some (log₀.map fun p => .ok p.2, w₀) ∧
        w₀.stored ⟨0⟩ 3 = some 30 ∧ w₀.remembered ⟨0⟩ 2 = none := ⟨_, rfl, rfl, rfl⟩
    obtain ⟨hanswers, hstores, hmemos⟩ :=
      hagreed agree log log₀ w' w₀ hys (List.Perm.refl _) hcommits hfirst
    refine ⟨log, w', hcommits, fun x b hx => ?_, hmerges.kept 1 10 rfl, ?_,
      (hmemos 2).trans hremembered⟩
    · have hlisted : x ∈ log₀.map Prod.fst := hys.mem_iff.1 (List.mem_map_of_mem hx)
      obtain ⟨⟨_, b₀⟩, hx₀, rfl⟩ := List.mem_map.1 hlisted
      obtain rfl := hanswers _ b b₀ hx hx₀
      have hlog₀ : ∀ p ∈ log₀, p.2 = true ↔ p.1 ≠ ⟨3⟩ := by decide
      exact hlog₀ _ hx₀
    · have hrel := hstores 3
      rw [hstored] at hrel
      generalize w'.stored ⟨0⟩ 3 = u at hrel
      cases hrel with
      | some h => rw [eq_of_beq h]

end FourPasses

end DerivationCache
