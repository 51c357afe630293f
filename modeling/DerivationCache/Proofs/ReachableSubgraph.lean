import DerivationCache.Proofs.PassBounds
import DerivationCache.Proofs.Search

/-!
# What a request derives

Let the builders of a cache request the dependencies of their keys in order, and let finitely many
keys be reachable. A request for a key that has to be derived then opens one pass, and the pass is
a search of the keys that the requested one reaches through unpublished keys. If the search comes
to its end, all of them are published together. If it meets a cycle that no placeholder can cut,
nothing is.

## Main results

* `Machine.get_outcome`: a request ends, and in one of these two ways.
* `request_derives_reachable`: with placeholders it derives exactly the reachable keys, each once.
-/

namespace DerivationCache

open Relation

variable {K N V σ B : Type} [DecidableEq K] [DecidableEq N] [BEq V] [ToString K]

/-- On the way through these machines, exactly the unpublished keys that the root reaches are
derived, each once and in one pass, and are published at the end. -/
structure DerivesReachable (deps : K → List K) (w : World K N V σ B) (c : CacheId)
    (cache : Cache K V σ B) (root : K) (ms : List (Machine K N V σ B)) (w' : World K N V σ B) :
    Prop where
  passes : (ms.filter Machine.startsPass).length = 1
  calls_nodup : (Machine.calls ms).Nodup
  mem_calls : ∀ k, k ∈ Machine.calls ms ↔ ReflTransGen (OpenEdge cache.store deps) root k
  issues_nodup : (Machine.issues ms).Nodup
  mem_issues : cache.config.placeholders.isSome = true →
    ∀ k, k ∈ Machine.issues ms ↔ ∃ m ∈ ms, m.Reenters k
  /-- No cycle is closed without placeholders. -/
  acyclic : cache.config.placeholders = none →
    ∀ k, ReflTransGen (OpenEdge cache.store deps) root k →
      ¬ TransGen (OpenEdge cache.store deps) k k
  published : ∀ k, (w'.stored c k).isSome = true ↔
    (w.stored c k).isSome = true ∨ ReflTransGen (OpenEdge cache.store deps) root k
  kept : ∀ k v, w.stored c k = some v → w'.stored c k = some v
  forgotten : ∀ k, w'.remembered c k = none ∨ w'.remembered c k = w.remembered c k
  apart : ∀ d, d ≠ c → w'.ledger d = w.ledger d

omit [DecidableEq N] [BEq V] [ToString K] in
/-- What the pass has to derive is what was unpublished when it was requested. -/
theorem PassSetting.OpenedFor.edge_eq {s : PassSetting K V σ B} {w : World K N V σ B} {c : CacheId}
    {cache : Cache K V σ B} {root : K} {thread : ThreadId}
    (h : s.OpenedFor w c cache root thread) (deps : K → List K) :
    s.Edge deps = OpenEdge cache.store deps := by
  funext k d
  rw [PassSetting.Edge, h.claimed]
  rfl

namespace Machine

variable {body : B → ContextId → K → Body K N V σ B} {w : World K N V σ B} {c : CacheId}
  {cache : Cache K V σ B} {deps : K → List K} {root : K} {stack : List (Frame K N V σ B)}

omit [DecidableEq N] [BEq V] in
/-- What is called on the way is called within the pass, if the rest is silent. -/
theorem called_within {first last : List (Machine K N V σ B)} (hfirst : ∀ m ∈ first, m.Silent)
    (hlast : ∀ m ∈ last, m.Silent) (past : List (Machine K N V σ B)) :
    calls (first ++ past ++ last) = calls past ∧ issues (first ++ past ++ last) = issues past ∧
      ∀ k, (∃ m ∈ first ++ past ++ last, m.Reenters k) ↔ ∃ m ∈ past, m.Reenters k := by
  refine ⟨by simp [calls_eq_nil hfirst, calls_eq_nil hlast],
    by simp [issues_eq_nil hfirst, issues_eq_nil hlast], fun k => ⟨?_, ?_⟩⟩
  · rintro ⟨m, hm, hreenters⟩
    rcases List.mem_append.1 hm with hm | hm
    · rcases List.mem_append.1 hm with hm | hm
      · exact absurd hreenters ((hfirst m hm).reenters k)
      · exact ⟨m, hm, hreenters⟩
    · exact absurd hreenters ((hlast m hm).reenters k)
  · rintro ⟨m, hm, hreenters⟩
    exact ⟨m, List.mem_append_left _ (List.mem_append_right _ hm), hreenters⟩

/-- The pass that a request opens is a search, which ends. -/
theorem get_searches (hcache : w.cache? c = some cache) (hroot : cache.Underived root)
    {relays : Prop} (hrelays : cache.config.placeholders = none → relays)
    (hbody : ∀ b x k, Routine.InOrder x relays (deps k) (body b x k))
    (hfinite : {k | ReflTransGen (OpenEdge cache.store deps) root k}.Finite)
    (howns : ∀ k, ReflTransGen (OpenEdge cache.store deps) root k →
      ∀ d ∈ deps k, cache.owns d = true)
    (hstack : ∀ frame ∈ stack, (w.context? frame.context).isSome = true)
    (next : Except RequestError V → Body K N V σ B) :
    ∃ (s : PassSetting K V σ B) (w₁ w' : World K N V σ B) (thread : ThreadId) (left : Nat)
      (past : List (Machine K N V σ B)) (answer : Except RequestError (Option V)),
      Path body ⟨w, .run (.get c root next), stack⟩
        (⟨w, .run (.get c root next), stack⟩ ::
          ⟨w₁, .attempt ⟨c, root, thread, left + 1⟩ (.caller next), stack⟩ :: past)
        ⟨w', .reply s.context root answer (.pass ⟨c, root, thread, left⟩ (.caller next)), stack⟩ ∧
      s.OpenedFor w c cache root thread ∧
      (∀ frame ∈ stack, frame.context ≠ s.context) ∧
      Finds s deps root .empty stack root w' past answer := by
  obtain ⟨s, w₁, w₂, thread, left, hopens, hpass, hs⟩ :=
    get_opens body hcache hroot next stack
  have hedge := hs.edge_eq deps
  have hforeign : ∀ frame ∈ stack, frame.context ≠ s.context := by
    intro frame hframe hcontext
    have hsome := hstack frame hframe
    rw [hcontext, hs.fresh] at hsome
    simp at hsome
  have horderly : s.Orderly body deps root := by
    refine ⟨fun b k => (hbody b s.context k).mono ?_, by rwa [hedge], ?_, ?_⟩
    · rw [hs.placeholders]
      exact hrelays
    · rw [hs.claimed]
      exact hroot.unpublished
    · rw [hedge, hs.claimed]
      exact howns
  have hsearch : Search s deps root w₂ .empty [] stack := by
    refine ⟨hpass, .empty, .empty, fun k => ⟨?_, ?_⟩⟩
    · exact fun hk => absurd hk (s.not_inFlight_empty k)
    · rintro ⟨frame, hframe, hcontext, -⟩
      exact absurd hcontext (hforeign frame hframe)
  have hown : s.cache.owns root = true := by
    rw [hs.claimed]
    exact hroot.owns
  obtain ⟨past, w', answer, hpath, hfinds⟩ := Search.answers horderly _ w₂ .empty [] stack root
    (.pass ⟨c, root, thread, left⟩ (.caller next)) hsearch hown
    (fun _ => ⟨.refl, fun frame hframe hcontext => absurd hcontext (hforeign frame hframe)⟩)
    (Nat.le_refl _)
  exact ⟨s, w₁, w', thread, left, past, answer, hopens.trans hpath, hs, hforeign, hfinds⟩

/-- A search that has dealt with its root is committed, and has done what it was for. -/
theorem search_derives {s : PassSetting K V σ B} {thread : ThreadId} {left : Nat}
    {w₁ w₂ : World K N V σ B} {past : List (Machine K N V σ B)} {entries : Table K (Entry V)}
    (hcache : w.cache? c = some cache) (hs : s.OpenedFor w c cache root thread)
    (hroot : cache.store.get? root = none) (hforeign : ∀ frame ∈ stack, frame.context ≠ s.context)
    (next : Except RequestError V → Body K N V σ B) (v : V)
    (search : Search s deps root w₂ entries past stack) (discovered : s.Discovered entries root) :
    ∃ ms w', Path body
        ⟨w₂, .reply s.context root (.ok (some v)) (.pass ⟨c, root, thread, left⟩ (.caller next)),
          stack⟩ ms ⟨w', .run (next (.ok v)), stack⟩ ∧
      DerivesReachable deps w c cache root
        (⟨w, .run (.get c root next), stack⟩ ::
          ⟨w₁, .attempt ⟨c, root, thread, left + 1⟩ (.caller next), stack⟩ :: past ++ ms) w' := by
  have hunpublished : s.cache.store.get? root = none := by
    rw [hs.claimed]
    exact hroot
  -- No builder of the pass is running any more, so none of its keys is in flight.
  have hsettled : ∀ k, ¬ (s.contextWith entries).InFlight k := by
    intro k hk
    obtain ⟨frame, hframe, hcontext, -⟩ := (search.suspended k).1 hk
    exact hforeign frame hframe hcontext
  have hresolved (k : K) : (∃ u, entries.get? k = some (.resolved u)) ↔
      ReflTransGen (OpenEdge cache.store deps) root k := by
    rw [← hs.edge_eq deps]
    exact search.explored.resolved_iff hsettled discovered.1 k
  have hseen (k : K) : (entries.get? k).isSome = true ↔
      ReflTransGen (OpenEdge cache.store deps) root k := by
    rw [← hresolved, Option.isSome_iff_exists]
    constructor
    · rintro ⟨e, he⟩
      exact (hresolved k).2 (hs.edge_eq deps ▸ search.explored.reached k e he)
    · rintro ⟨u, hu⟩
      exact ⟨_, hu⟩
  have hfresh : ∀ k e, entries.get? k = some e → s.cache.store.get? k = none :=
    fun k e he => Explored.unpublished hunpublished (search.explored.reached k e he)
  obtain ⟨w', cache', hend, hgains, hledger⟩ := search.inPass.reply_publishes body (k := root)
    (p := ⟨c, root, thread, left⟩) hs.parent.symm hsettled hfresh v next stack
  obtain ⟨hstored, hremembered, hapart⟩ := hs.after_publication hcache hgains hledger
  have hvalue (k : K) : ((s.contextWith entries).get? k).isSome = true ↔
      ReflTransGen (OpenEdge cache.store deps) root k := by
    simp only [← hresolved, Option.isSome_iff_exists, Context.get?_eq_some_iff,
      PassSetting.contextWith_entries]
  let first : List (Machine K N V σ B) := [⟨w, .run (.get c root next), stack⟩,
    ⟨w₁, .attempt ⟨c, root, thread, left + 1⟩ (.caller next), stack⟩]
  let last : List (Machine K N V σ B) := [⟨w₂, .reply s.context root (.ok (some v))
      (.pass ⟨c, root, thread, left⟩ (.caller next)), stack⟩,
    ⟨w', .deliver c root (.returned (.ok v)) (.caller next), stack⟩]
  have hfirst : ∀ m ∈ first, m.Silent := by simp [first, silent_of_focus]
  have hlast : ∀ m ∈ last, m.Silent := by simp [last, silent_of_focus]
  obtain ⟨hcalls, hissues, hreenters⟩ := called_within hfirst hlast past
  -- The search stays inside its pass, so no machine but the one before it starts a pass.
  have hpasses : ((first ++ past ++ last).filter startsPass).length = 1 := by
    have hpast : past.filter startsPass = [] := by
      rw [List.filter_eq_nil_iff]
      intro m hm
      rw [(search.logged.inside m hm).startsPass]
      simp
    simp [hpast, first, last, startsPass]
  refine ⟨last, w', hend, ?_⟩
  exact
    { passes := hpasses
      calls_nodup := hcalls ▸ search.logged.calls_nodup
      mem_calls := fun k => hcalls ▸ (search.logged.mem_calls k).trans (hseen k)
      issues_nodup := hissues ▸ search.logged.issues_nodup
      mem_issues := fun hsome k => by
        rw [← hs.placeholders] at hsome
        exact (hissues ▸ search.logged.mem_issues hsome k).trans (hreenters k).symm
      acyclic := fun hnone k hk => by
        obtain ⟨u, hu⟩ := (hresolved k).2 hk
        rw [← hs.placeholders] at hnone
        rw [← hs.edge_eq deps]
        exact search.explored.acyclic hnone k u hu
      published := fun k => by
        rw [hstored, ← hvalue]
        cases w.stored c k <;> simp
      kept := fun k u hu => by rw [hstored, hu, Option.some_or]
      forgotten := hremembered
      apart := hapart }

/-- A request ends. Either exactly the reachable keys have been derived and are published, or there
is no way to make placeholders, a key on a cycle is named, and nothing has changed but for the
counters. -/
theorem get_outcome (hcache : w.cache? c = some cache) (hroot : cache.Underived root)
    {relays : Prop} (hrelays : cache.config.placeholders = none → relays)
    (hbody : ∀ b x k, Routine.InOrder x relays (deps k) (body b x k))
    (hfinite : {k | ReflTransGen (OpenEdge cache.store deps) root k}.Finite)
    (howns : ∀ k, ReflTransGen (OpenEdge cache.store deps) root k →
      ∀ d ∈ deps k, cache.owns d = true)
    (hstack : ∀ frame ∈ stack, (w.context? frame.context).isSome = true)
    (next : Except RequestError V → Body K N V σ B) :
    (∃ ms v w', Path body ⟨w, .run (.get c root next), stack⟩ ms
        ⟨w', .run (next (.ok v)), stack⟩ ∧ DerivesReachable deps w c cache root ms w') ∨
      ∃ ms l w', Path body ⟨w, .run (.get c root next), stack⟩ ms
          ⟨w', .run (next (.error (.violation (.unresolvableReentry (toString l))))), stack⟩ ∧
        cache.config.placeholders = none ∧ ReflTransGen (OpenEdge cache.store deps) root l ∧
        TransGen (OpenEdge cache.store deps) l l ∧ w'.ledger = w.ledger := by
  obtain ⟨s, w₁, w₂, thread, left, past, answer, hpath, hs, hforeign, hfinds⟩ :=
    get_searches hcache hroot hrelays hbody hfinite howns hstack next
  have hedge := hs.edge_eq deps
  cases hfinds with
  | @value entries v search advances discovered =>
      left
      have hunpublished : s.cache.store.get? root = none := by
        rw [hs.claimed]
        exact hroot.unpublished
      obtain ⟨ms, w', hend, hderives⟩ := search_derives hcache hs hroot.unpublished hforeign next v
        search (discovered hunpublished)
      exact ⟨_, v, w', hpath.trans hend, hderives⟩
  | cycle l inPass hnone reached cycle =>
      right
      obtain ⟨w', hend, hledger⟩ := inPass.reply_fails body (k := root)
        (p := ⟨c, root, thread, left⟩) hs.parent.symm
        (.violation (.unresolvableReentry (toString l))) next stack
      exact ⟨_, l, w', hpath.trans hend, by rwa [← hs.placeholders], by rwa [← hedge],
        by rwa [← hedge], hs.after_error hcache hroot.free (by simp) hledger⟩

end Machine

/-- A request for a key that has to be derived, in a cache that makes placeholders and whose
builders request the dependencies of their keys in order and return values, ends with a value, after
exactly one pass. On the way the builder is called exactly once for each key that is reachable
through unpublished keys, and for no other key, and a placeholder is asked for exactly once for each
key that is requested while its own builder is running, and for no other key. Afterwards exactly the
reachable keys are published besides those that were, whose values stay as they were. -/
theorem request_derives_reachable {body : B → ContextId → K → Body K N V σ B}
    {w : World K N V σ B} {c : CacheId} {cache : Cache K V σ B} {deps : K → List K} {root : K}
    {stack : List (Frame K N V σ B)} (hcache : w.cache? c = some cache)
    (hroot : cache.Underived root) (hplaceholders : cache.config.placeholders.isSome = true)
    (hbody : ∀ b x k, Routine.InOrder x False (deps k) (body b x k))
    (hfinite : {k | ReflTransGen (OpenEdge cache.store deps) root k}.Finite)
    (howns : ∀ k, ReflTransGen (OpenEdge cache.store deps) root k →
      ∀ d ∈ deps k, cache.owns d = true)
    (hstack : ∀ frame ∈ stack, (w.context? frame.context).isSome = true)
    (next : Except RequestError V → Body K N V σ B) :
    ∃ ms v w', Machine.Path body ⟨w, .run (.get c root next), stack⟩ ms
        ⟨w', .run (next (.ok v)), stack⟩ ∧
      (ms.filter Machine.startsPass).length = 1 ∧
      (Machine.calls ms).Nodup ∧
      (∀ k, k ∈ Machine.calls ms ↔ ReflTransGen (OpenEdge cache.store deps) root k) ∧
      (Machine.issues ms).Nodup ∧
      (∀ k, k ∈ Machine.issues ms ↔ ∃ m ∈ ms, m.Reenters k) ∧
      (∀ k, (w'.stored c k).isSome = true ↔
        (w.stored c k).isSome = true ∨ ReflTransGen (OpenEdge cache.store deps) root k) ∧
      ∀ k v, w.stored c k = some v → w'.stored c k = some v := by
  have hsome : cache.config.placeholders ≠ none := Option.isSome_iff_ne_none.1 hplaceholders
  rcases Machine.get_outcome hcache hroot (fun hnone => hsome hnone) hbody hfinite howns hstack next
    with ⟨ms, v, w', hpath, h⟩ | ⟨ms, l, w', -, hnone, -⟩
  · exact ⟨ms, v, w', hpath, h.passes, h.calls_nodup, h.mem_calls, h.issues_nodup,
      h.mem_issues hplaceholders, h.published, h.kept⟩
  · exact absurd hnone hsome

/-! ### A graph with every kind of edge -/

namespace CyclicGraph

/-- `0` depends on itself and twice on `1`, which depends on `0` in turn. -/
def deps : Nat → List Nat
  | 0 => [1, 1, 0]
  | 1 => [0, 2, 3]
  | _ => []

/-- Requests the keys, relays errors, and returns a value. -/
def request (x : ContextId) : List Nat → Body Nat Unit Nat Unit Unit
  | [] => .done (.ok 7)
  | k :: keys => .build x k fun
    | .ok _ => request x keys
    | .error e => .done (.error e)

/-- The builder of a key requests what the key depends on. -/
def body : Unit → ContextId → Nat → Body Nat Unit Nat Unit Unit :=
  fun _ x k => request x (deps k)

/-- A value is published for `2`. -/
def cache : Cache Nat Nat Unit Unit :=
  { config :=
      { makeBuilder := some fun client => ((), client)
        placeholders := some fun k _ client => ((.sentinel, k), client) }
    store := Table.empty.insert 2 20 }

/-- The cache alone. -/
def world : World Nat Unit Nat Unit Unit :=
  { caches := #[cache], client := () }

/-- The keys are requested in the order of the list. -/
theorem request_inOrder (x : ContextId) (keys : List Nat) :
    Routine.InOrder x True keys (request x keys) := by
  induction keys with
  | nil => exact .done 7
  | cons k keys ih => exact .build (fun _ => ih) fun _ _ => .done

/-- The published key is not reached, since its value is not derived again. -/
theorem reachable_iff (k : Nat) :
    ReflTransGen (OpenEdge cache.store deps) 0 k ↔ k = 0 ∨ k = 1 ∨ k = 3 := by
  constructor
  · intro h
    induction h with
    | refl => exact Or.inl rfl
    | tail _ hedge ih =>
        obtain ⟨-, hmem, hunpublished⟩ := hedge
        rcases ih with rfl | rfl | rfl
        · simp only [deps, List.mem_cons, List.not_mem_nil, or_false] at hmem
          omega
        · simp only [deps, List.mem_cons, List.not_mem_nil, or_false] at hmem
          rcases hmem with rfl | rfl | rfl
          · exact Or.inl rfl
          · exact absurd hunpublished (by decide)
          · exact Or.inr (Or.inr rfl)
        · simp [deps] at hmem
  · have hone : OpenEdge cache.store deps 0 1 := by decide
    have hthree : OpenEdge cache.store deps 1 3 := by decide
    rintro (rfl | rfl | rfl)
    · exact .refl
    · exact .single hone
    · exact (ReflTransGen.single hone).tail hthree

/-- One request for `0` calls the builders of `0`, `1` and `3`, and then `2` is published still, and
they are. -/
theorem derives_reachable :
    world.cache? ⟨0⟩ = some cache ∧ cache.Underived 0 ∧
      ∃ ms v w', Machine.Path body ⟨world, .run (.get ⟨0⟩ 0 .done), []⟩ ms
          ⟨w', .run (.done (.ok v)), []⟩ ∧
        (Machine.calls ms).Nodup ∧ (∀ k, k ∈ Machine.calls ms ↔ k = 0 ∨ k = 1 ∨ k = 3) ∧
        (∀ k, (w'.stored ⟨0⟩ k).isSome = true ↔ k ≤ 3) ∧ w'.stored ⟨0⟩ 2 = some 20 := by
  have hcache : world.cache? ⟨0⟩ = some cache := rfl
  have hroot : cache.Underived 0 := ⟨rfl, rfl, by decide, rfl, rfl⟩
  have hfinite : {k | ReflTransGen (OpenEdge cache.store deps) 0 k}.Finite := by
    refine (Set.toFinite {0, 1, 3}).subset fun k hk => ?_
    simpa using (reachable_iff k).1 hk
  have hstack : ∀ frame ∈ ([] : List (Frame Nat Unit Nat Unit Unit)),
      (world.context? frame.context).isSome = true := by simp
  obtain ⟨ms, v, w', hpath, -, hnodup, hcalls, -, -, hstored, hkept⟩ :=
    request_derives_reachable hcache hroot rfl
      (fun _ x k => (request_inOrder x (deps k)).mono False.elim) hfinite
      (fun _ _ _ _ => rfl) hstack .done
  refine ⟨hcache, hroot, ms, v, w', hpath, hnodup,
    fun k => (hcalls k).trans (reachable_iff k), fun k => ?_, hkept 2 20 rfl⟩
  have htwo : (world.stored ⟨0⟩ k).isSome = true ↔ k = 2 := by
    by_cases hk : k = 2
    · simp [hk, World.stored, hcache, cache]
    · simp [hk, World.stored, hcache, cache, Ne.symm hk]
  rw [hstored, htwo, reachable_iff]
  omega

end CyclicGraph

end DerivationCache
