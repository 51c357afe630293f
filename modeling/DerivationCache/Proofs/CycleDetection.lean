import DerivationCache.Proofs.ReachableSubgraph

/-!
# Detection of cycles

Without a way to make placeholders, a key that is requested while its own builder is running cannot
be answered. A request therefore fails if it comes to a cycle of unpublished keys. That it fails
only then, and always then, is seen from the search that its pass makes: keys in flight are on the
way from the root to the key that is being derived, and keys that are done are on no cycle.

## Main results

* `request_detects_cycles`: a request succeeds if and only if no unpublished key that it reaches is
  on a cycle, and otherwise names a key on a cycle and leaves no trace.
-/

namespace DerivationCache

open Relation

variable {K N V σ B : Type} [DecidableEq K] [DecidableEq N] [BEq V] [ToString K]

/-- A request for a key that has to be derived, in a cache that makes no placeholders and whose
builders request the dependencies of their keys in order, relay errors and otherwise return values,
ends. It succeeds if and only if none of the keys that are reachable through unpublished keys is on
a cycle of them. If one is, the error names a key on a cycle, and nothing has changed in any cache
but its counters. In no case is a failure remembered that was not before. -/
theorem request_detects_cycles {body : B → ContextId → K → Body K N V σ B}
    {w : World K N V σ B} {c : CacheId} {cache : Cache K V σ B} {deps : K → List K} {root : K}
    {stack : List (Frame K N V σ B)} (hcache : w.cache? c = some cache)
    (hroot : cache.Underived root) (hplaceholders : cache.config.placeholders = none)
    (hbody : ∀ b x k, Routine.InOrder x True (deps k) (body b x k))
    (hfinite : {k | ReflTransGen (OpenEdge cache.store deps) root k}.Finite)
    (howns : ∀ k, ReflTransGen (OpenEdge cache.store deps) root k →
      ∀ d ∈ deps k, cache.owns d = true)
    (hstack : ∀ frame ∈ stack, (w.context? frame.context).isSome = true)
    (next : Except RequestError V → Body K N V σ B) :
    ∃ ms result w', Machine.Path body ⟨w, .run (.get c root next), stack⟩ ms
        ⟨w', .run (next result), stack⟩ ∧
      ((∃ v, result = .ok v) ↔ ∀ k, ReflTransGen (OpenEdge cache.store deps) root k →
        ¬ TransGen (OpenEdge cache.store deps) k k) ∧
      (∀ k, ReflTransGen (OpenEdge cache.store deps) root k →
        TransGen (OpenEdge cache.store deps) k k →
        ∃ l, result = .error (.violation (.unresolvableReentry (toString l))) ∧
          ReflTransGen (OpenEdge cache.store deps) root l ∧
          TransGen (OpenEdge cache.store deps) l l ∧ w'.ledger = w.ledger) ∧
      ∀ d k, w'.remembered d k = none ∨ w'.remembered d k = w.remembered d k := by
  rcases Machine.get_outcome hcache hroot (fun _ => trivial) hbody hfinite howns hstack next
    with ⟨ms, v, w', hpath, h⟩ | ⟨ms, l, w', hpath, -, hl, hcycle, hledger⟩
  · have hacyclic := h.acyclic hplaceholders
    refine ⟨ms, .ok v, w', hpath, ⟨fun _ => hacyclic, fun _ => ⟨v, rfl⟩⟩,
      fun k hk hcycle => absurd hcycle (hacyclic k hk), fun d k => ?_⟩
    by_cases hd : d = c
    · subst hd
      exact h.forgotten k
    · exact Or.inr (World.remembered_of_ledger (h.apart d hd) k)
  · refine ⟨ms, _, w', hpath, ⟨?_, ?_⟩, fun k _ _ => ⟨l, rfl, hl, hcycle, hledger⟩,
      fun d k => Or.inr (World.remembered_of_ledger (congrFun hledger d) k)⟩
    · rintro ⟨v, hv⟩
      simp at hv
    · intro hacyclic
      exact absurd hcycle (hacyclic l hl)

/-! ### The graph with every kind of edge, without placeholders -/

namespace CyclicGraph

/-- Failures are remembered, and one of `5` is. -/
def plain : Cache Nat Nat Unit Unit :=
  { config := { makeBuilder := some fun client => ((), client), cachesFailures := true }
    store := Table.empty.insert 2 20
    failures := Table.empty.insert 5 ⟨.counted 1, "late"⟩ }

/-- The cache without placeholders, and nothing has happened yet. -/
def plainWorld : World Nat Unit Nat Unit Unit :=
  { caches := #[plain], client := () }

/-- A request for `0` fails, since `0` depends on itself. What was published and remembered stays as
it was. -/
theorem detects_cycles :
    plainWorld.cache? ⟨0⟩ = some plain ∧ plain.Underived 0 ∧
      ∃ ms l w', Machine.Path body ⟨plainWorld, .run (.get ⟨0⟩ 0 .done), []⟩ ms
          ⟨w', .run (.done (.error (.violation (.unresolvableReentry (toString l))))), []⟩ ∧
        (l = 0 ∨ l = 1 ∨ l = 3) ∧ w'.ledger = plainWorld.ledger ∧
        w'.remembered ⟨0⟩ 5 = some ⟨.counted 1, "late"⟩ := by
  have hcache : plainWorld.cache? ⟨0⟩ = some plain := rfl
  have hroot : plain.Underived 0 := ⟨rfl, rfl, fun _ => rfl, rfl, rfl⟩
  have hfinite : {k | ReflTransGen (OpenEdge plain.store deps) 0 k}.Finite := by
    refine (Set.toFinite {0, 1, 3}).subset fun k hk => ?_
    simpa using (reachable_iff k).1 hk
  have hstack : ∀ frame ∈ ([] : List (Frame Nat Unit Nat Unit Unit)),
      (plainWorld.context? frame.context).isSome = true := by simp
  obtain ⟨ms, result, w', hpath, -, hfails, -⟩ :=
    request_detects_cycles hcache hroot rfl (fun _ x k => request_inOrder x (deps k))
      hfinite (fun _ _ _ _ => rfl) hstack .done
  have hself : OpenEdge plain.store deps 0 0 := by decide
  obtain ⟨l, rfl, hl, -, hledger⟩ := hfails 0 .refl (.single hself)
  refine ⟨hcache, hroot, ms, l, w', hpath, (reachable_iff l).1 hl, hledger, ?_⟩
  rw [World.remembered_of_ledger (congrFun hledger ⟨0⟩)]
  rfl

end CyclicGraph

end DerivationCache
