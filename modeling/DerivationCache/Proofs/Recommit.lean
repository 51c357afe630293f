import DerivationCache.Proofs.CommitOrder
import DerivationCache.Proofs.ConflictCause
import DerivationCache.Script.Value

/-!
# Committing again

No context knows whether it was committed. A context whose commit succeeded can be committed again,
and the commit is decided anew, by what its cache holds at that moment. What the context has
recorded was published then, and a published value is never replaced, so nothing contradicts the
context and nothing of it is missing, as long as the context itself is left alone.

This needs no more of equality than that every value is equal to itself. Two links are equal if they
lead to one cell, whatever the cell has received in the meantime.

## Main results

* `Cache.publish_of_published`: entries that are all published are only counted.
* `World.Entered.grows`: what a context has entered into its cache stays there.
* `committed_stays_committed`: a commit that succeeded succeeds again at every later moment.
-/

namespace DerivationCache

variable {K N V σ B : Type} [DecidableEq K] [BEq V]

/-! ### Entries that are published -/

/-- Entries that are all published already are only counted. -/
theorem Cache.publish_of_published {cache : Cache K V σ B} {entries : List (K × V)}
    (published : ∀ k v, (k, v) ∈ entries → ∃ u, cache.store.get? k = some u ∧ (u == v) = true) :
    cache.publish entries = (true, cache.count .commit) := by
  have hagree : entries.any cache.conflicts = false := by
    rw [List.any_eq_false]
    rintro ⟨k, v⟩ hmem
    obtain ⟨u, hu, huv⟩ := published k v hmem
    simp [conflicts, hu, huv]
  have hfresh : entries.filter (fun entry => !cache.store.contains entry.1) = [] := by
    rw [List.filter_eq_nil_iff]
    rintro ⟨k, v⟩ hmem
    obtain ⟨u, hu, -⟩ := published k v hmem
    simp [Table.contains, hu]
  rw [publish, hagree, hfresh]
  rfl

namespace World

/-- All that the context has recorded is published in its cache, and none of its keys is in
flight. -/
structure Entered (w : World K N V σ B) (c : CacheId) (x : ContextId) : Prop
    extends w.Due c x where
  cache : ∃ cache, w.cache? c = some cache
  published : ∀ k v, w.keyState x k = some (.resolved v) →
    ∃ u, w.stored c k = some u ∧ (u == v) = true

variable {w w' : World K N V σ B} {c : CacheId} {x : ContextId}

/-- What a context has entered into its cache stays there. -/
theorem Entered.grows (h : w.Entered c x) (hgrows : w.Grows w')
    (same : ∀ k, w'.keyState x k = w.keyState x k) : w'.Entered c x where
  parent := hgrows.parent h.parent
  ready k e he := h.ready k e ((same k).symm.trans he)
  cache := by
    obtain ⟨cache, hcache⟩ := h.cache
    obtain ⟨cache', hcache', -⟩ := hgrows.caches c cache hcache
    exact ⟨cache', hcache'⟩
  published k v hv := by
    obtain ⟨u, hu, huv⟩ := h.published k v ((same k).symm.trans hv)
    exact ⟨u, hgrows.stored c k u hu, huv⟩

variable [ToString K]

/-- A commit that succeeds enters all that its context has recorded. -/
theorem entered_of_commit [ReflBEq V] (h : w.commit x = some (.ok true, w')) :
    ∃ c, w'.Entered c x := by
  obtain ⟨context, c, cache, cache', hx, hparent, hcache, hready, -, hworld⟩ := commit_inv h
  have hc : w.parent? x = some c := (parent?_of_context? hx).trans hparent
  have hcontexts := commit_contexts h
  have hstate (k : K) : w'.keyState x k = w.keyState x k := keyState_congr hcontexts x k
  refine ⟨c, ?_⟩
  exact
    { parent := (parent?_congr hcontexts x).trans hc
      ready := fun k e he => hready k e ((hstate k).symm.trans he)
      cache := ⟨cache', by rw [hworld, cache?_setCache_self hcache]⟩
      published := fun k v hv => commit_true h hc ((hstate k).symm.trans hv) }

/-- A context that has entered all it has recorded is committed once more, which is counted. -/
theorem Entered.commit (h : w.Entered c x) : ∃ cache, w.cache? c = some cache ∧
    w.commit x = some (.ok true, w.setCache c (cache.count .commit)) := by
  obtain ⟨cache, hcache⟩ := h.cache
  obtain ⟨context, hx, hparent⟩ := Option.bind_eq_some_iff.1 h.parent
  have hrefusal : context.refusal = none := by
    rw [context.refusal_eq_none_iff]
    intro k e he
    exact h.ready k e ((keyState_of_context? hx k).trans he)
  have hpublish : cache.publish context.recorded = (true, cache.count .commit) := by
    apply Cache.publish_of_published
    intro k v hmem
    rw [Context.mem_recorded, ← keyState_of_context? hx] at hmem
    obtain ⟨u, hu, huv⟩ := h.published k v hmem
    exact ⟨u, (stored_of_cache? hcache k).symm.trans hu, huv⟩
  refine ⟨cache, hcache, ?_⟩
  rw [commit_of_settled hx hrefusal hparent hcache, hpublish]

end World

/-! ### Later moments of a run -/

section Runs

variable [DecidableEq N] [ToString K] {body : B → ContextId → K → Body K N V σ B}

/-- A step that commits a context leaves what the commit leaves, but for bookkeeping. -/
theorem Machine.idles_of_commit {m m' : Machine K N V σ B} {x : ContextId} {w : World K N V σ B}
    (hdemand : m.demand = .commit x) (hcommit : m.world.commit x = some (.ok true, w))
    (hstep : m.step body = some m') : w.Idles m'.world := by
  rcases focus_of_demand_commit hdemand with ⟨r, next, hfocus, hr⟩ | ⟨k, v, p, receiver, hfocus⟩
  · cases r <;> simp only [Request.demand, Demand.commit.injEq, reduceCtorEq] at hr
    subst hr
    obtain ⟨answer, hanswer⟩ := answer_of_step hfocus hstep
    obtain ⟨-, rfl⟩ := Prod.mk.inj (Option.some.inj (hcommit.symm.trans hanswer))
    exact .refl _
  · rw [step, hfocus] at hstep
    simp only [stepReply, hcommit, bind, Option.bind_some] at hstep
    obtain ⟨w', hidles, rfl⟩ := settle_inv hstep
    exact hidles

/-- Published values, caches and contexts stay from one moment to any later one. -/
theorem interleaving_grows (e : Interleaving body) {i j : Nat} (hij : i ≤ j)
    (hj : j ≤ e.length) : (e.state i).world.Grows (e.state j).world := by
  refine e.lasts (P := fun m => (e.state i).world.Grows m.world) hij (.refl _) ?_
  intro n _ hn hgrows
  exact hgrows.trans (interleaving_obeys e (Nat.lt_of_lt_of_le hn hj)).grows

/-- A context whose commit succeeded can be committed again at every later moment of any run, as
long as what it has recorded is what it had recorded then. The commit succeeds, and no cache changes
but for its counter. For every key that is recorded in the context, a value equal to the recorded
one is published. -/
theorem committed_stays_committed [ReflBEq V] (e : Interleaving body) {i n : Nat} {x : ContextId}
    {w : World K N V σ B} (hin : i < n) (hn : n ≤ e.length)
    (commits : (e.state i).demand = .commit x)
    (committed : (e.state i).world.commit x = some (.ok true, w))
    (same : ∀ k, (e.state n).world.keyState x k = (e.state i).world.keyState x k) :
    ∃ c cache w', (e.state n).world.parent? x = some c ∧
      (e.state n).world.cache? c = some cache ∧
      (e.state n).world.commit x = some (.ok true, w') ∧
      w' = (e.state n).world.setCache c (cache.count .commit) ∧
      w'.ledger = (e.state n).world.ledger ∧
      ∀ k v, (e.state n).world.keyState x k = some (.resolved v) →
        ∃ u, (e.state n).world.stored c k = some u ∧ (u == v) = true := by
  have hi : i < e.length := Nat.lt_of_lt_of_le hin hn
  obtain ⟨m', hstep, hworld⟩ := e.goes i hi
  have hidles := Machine.idles_of_commit commits committed hstep
  have hlater := interleaving_grows e hin hn
  rw [hworld] at hlater
  obtain ⟨c, hentered⟩ := World.entered_of_commit committed
  have hafter (k : K) : w.keyState x k = (e.state i).world.keyState x k :=
    World.keyState_congr (World.commit_contexts committed) x k
  have hkept : (e.state n).world.Entered c x := by
    refine hentered.grows (hidles.grows.trans hlater) fun k => ?_
    rw [same, hafter]
  obtain ⟨cache, hcache, hagain⟩ := hkept.commit
  exact ⟨c, cache, _, hkept.parent, hcache, hagain, rfl,
    World.ledger_setCache_of_eq hcache rfl, hkept.published⟩

end Runs

/-! ### A cyclic value -/

namespace CyclicValue

open Script (Value)

/-- The key 7 needs itself, and puts the link to its own value into a list. No other key has a
value. -/
def body (_ : Unit) (x : ContextId) (k : Nat) : Body Nat Unit Value Unit Unit :=
  if k = 7 then
    .build x 7 fun
      | .ok (some v) => .done (.ok (.list [v]))
      | answer => .done (answer.map fun _ => .int 0)
  else .done (.error (.failure ⟨.counted 1, "no value"⟩))

/-- Stand-ins are links, and failures are remembered. -/
def config : Config Nat Value Unit Unit where
  makeBuilder := some fun client => ((), client)
  placeholders := some fun _ cell client => ((.forwarding, .forward cell), client)
  cachesFailures := true

/-- A pass is committed, and another one turned down because of it. Requests fail, failures are
forgotten, a value is inserted, and the first pass is committed again. -/
def main : Machine Nat Unit Value Unit Unit :=
  .start { client := () } (.perform (.newCache config) fun c =>
    .perform (.createContext c none none) fun x => .build x 7 fun _ =>
    .perform (.commit x) fun _ =>
    .perform (.createContext c none none) fun y =>
    .perform (.record y 7 (.int 1) false) fun _ => .perform (.record y 8 (.int 2) false) fun _ =>
    .perform (.commit y) fun _ =>
    .get c 9 fun _ => .perform (.clearFailures c) fun _ => .get c 10 fun _ =>
    .perform (.insert c 8 (.int 3)) fun _ =>
    .perform (.commit x) fun _ => .done (.ok (.int 0)))

theorem main_runs : ∀ i < 29, ((main.run body i).step body).isSome = true := by
  decide +kernel

/-- The moments of this run. -/
def session : Interleaving body :=
  main.runExecution 29 ⟨(), rfl⟩ (fun _ m' h => ⟨m', h, rfl⟩) main_runs

/-- A pass whose only value is a list with a link to that list stays committed, and the failure that
is remembered in the end stays remembered. -/
theorem session_stays_committed :
    (session.state 28).world.stored ⟨0⟩ 7 = some (.list [.forward ⟨0⟩]) ∧
      (session.state 28).world.cells.read ⟨0⟩ = .ok (.list [.forward ⟨0⟩]) ∧
      (session.state 28).world.remembered ⟨0⟩ 10 = some ⟨.counted 1, "no value"⟩ ∧
      ∃ c cache w', (session.state 28).world.parent? ⟨0⟩ = some c ∧
        (session.state 28).world.cache? c = some cache ∧
        (session.state 28).world.commit ⟨0⟩ = some (.ok true, w') ∧
        w' = (session.state 28).world.setCache c (cache.count .commit) ∧
        w'.ledger = (session.state 28).world.ledger ∧
        ∀ k v, (session.state 28).world.keyState ⟨0⟩ k = some (.resolved v) →
          ∃ u, (session.state 28).world.stored c k = some u ∧ (u == v) = true := by
  have committed : ∃ w, (session.state 9).world.commit ⟨0⟩ = some (.ok true, w) := ⟨_, rfl⟩
  obtain ⟨w, committed⟩ := committed
  have hcontext : (session.state 28).world.context? ⟨0⟩ =
      (session.state 9).world.context? ⟨0⟩ := rfl
  refine ⟨rfl, rfl, rfl, committed_stays_committed session (by decide) (by decide) rfl
    committed fun k => ?_⟩
  rw [World.keyState, hcontext, World.keyState]

end CyclicValue

end DerivationCache
