import DerivationCache.Proofs.Execution
import DerivationCache.Proofs.Outcome

/-!
# Published values are written once

The store of a cache has three writers: direct insertions, commits of passes, and commits that a
routine asks for. A request for a derived value returns by several ways: a hit, a pass that is
committed, a pass that lost a conflict, or a wait for another thread. This module reconciles
them over every run: a published value stays for ever, and whatever a request returns is, at
that moment and from then on, equal to the published value.

The invariant is `Machine.Coherent`. The value that a pass is answered with need not be what it
commits, but it has something behind it (`World.Gives`): a published value stays published, a
recorded one is published by the commit, and a stand-in makes the commit fail. So what is on its
way after the commit is equal to what is published.

## Main results

* `Machine.Coherent.follows`: the invariant is preserved, whatever happens next.
* `derived_values_agree`: published values are written once, and agree with all that requests
  return.
-/

namespace DerivationCache

variable {K N V σ B : Type} [DecidableEq K]

/-! ### Namespaces -/

namespace World

/-- Only keys of the namespace have a value: a published one, or one recorded in a pass that
commits into the cache. -/
structure Scoped (w : World K N V σ B) : Prop where
  stored : ∀ {c k v}, w.stored c k = some v → w.Owns c k
  recorded : ∀ {x c k v}, w.parent? x = some c → w.keyState x k = some (.resolved v) → w.Owns c k

/-- A context that has an entry had the same parent before the world grew. -/
theorem Grows.parent_of_keyState {w w' : World K N V σ B} (h : w.Grows w') {x : ContextId}
    {c : CacheId} {k : K} {e : Entry V} (hc : w'.parent? x = some c)
    (he : w.keyState x k = some e) : w.parent? x = some c := by
  cases hx : w.context? x with
  | none => simp [keyState, hx] at he
  | some context =>
      rw [← h.parent_eq hx, hc]

/-- No step gives a value to a key outside the namespace. -/
theorem Obeys.scoped {w w' : World K N V σ B} {d : Demand K V} (h : w.Obeys w' d)
    (hw : w.Scoped) : w'.Scoped where
  stored {c k v} hv := by
    rcases h.source c k v hv with hv | ⟨-, howns⟩ | ⟨x, -, hparent, -, hv⟩
    · exact h.grows.owns (hw.stored hv)
    · exact h.grows.owns howns
    · exact h.grows.owns (hw.recorded hparent hv)
  recorded {x c k v} hc hv := by
    obtain ⟨e, hshift, -, howns⟩ := h.shift
    rcases hshift.recorded_source hv with hold | rfl
    · exact h.grows.owns (hw.recorded (h.grows.parent_of_keyState hc hold) hold)
    · exact h.grows.owns (howns x k _ rfl c hc)

/-- There are no keys in an empty world. -/
theorem Scoped.empty_world (client : σ) : ({ client } : World K N V σ B).Scoped where
  stored h := by simp [World.stored, cache?] at h
  recorded h := by simp [World.parent?, context?] at h

/-- A cache answers for a key with what is published. -/
theorem Scoped.published [DecidableEq N] [BEq V] [ToString K] {w w' : World K N V σ B}
    (h : w.Scoped) {c : CacheId} {k : K} {v : V} (hv : w.stored c k = some v)
    {answer : Except Violation (Option V)}
    (hanswer : w.answer (.published c k) = some (answer, w')) : answer = .ok (some v) := by
  obtain ⟨cache, hcache, howns⟩ := h.stored hv
  rw [stored_of_cache? hcache] at hv
  simp only [World.answer, hcache, Option.map_some, Option.some.injEq, Prod.mk.injEq] at hanswer
  rw [← hanswer.1, Cache.published, Cache.checkKey, if_pos howns, hv]
  rfl

/-- What a pass is answered with is published when the pass is committed, up to equality. -/
theorem Gives.committed [BEq V] [ReflBEq V] [ToString K] {w w' : World K N V σ B}
    {x : ContextId} {k : K} {u : V} (h : w.Gives x k u)
    (commit : w.commit x = some (.ok true, w')) {c : CacheId} (hc : w.parent? x = some c) :
    ∃ v, w'.stored c k = some v ∧ (v == u) = true := by
  cases h with
  | published d u parent stored =>
      obtain rfl : c = d := Option.some.inj (hc.symm.trans parent)
      exact ⟨u, commit_keeps commit stored, ReflBEq.rfl⟩
  | recorded u state => exact commit_true commit hc state
  | standIn p state =>
      obtain ⟨-, -, -, -, hready⟩ := commit_ok commit
      obtain ⟨v, hv⟩ := hready k _ state
      simp at hv

end World

/-! ### The invariant -/

namespace Machine

variable [BEq V]

/-- Values on their way are equal to the published ones, and what a pass is answered with has
something behind it. -/
structure Coherent (m : Machine K N V σ B) : Prop where
  wired : m.Wired
  owned : m.world.Scoped
  backed : ∀ {x k u asker}, m.focus = .reply x k (.ok (some u)) asker → m.world.Gives x k u
  carried : ∀ {c k v}, m.Carries c k v → ∃ u, m.world.stored c k = some u ∧ (u == v) = true

/-- Nothing is on its way in a machine that starts, whatever is published in its world. -/
theorem Coherent.start {w : World K N V σ B} (h : w.Scoped) (routine : Body K N V σ B) :
    (start w routine).Coherent where
  wired := ⟨trivial, fun frame hframe => by simp [Machine.start] at hframe⟩
  owned := h
  backed hfocus := by simp [Machine.start] at hfocus
  carried hv := by
    rcases hv with hv | ⟨frame, hframe, -⟩
    · exact absurd hv id
    · simp [Machine.start] at hframe

variable [ReflBEq V] [DecidableEq N] [ToString K] {body : B → ContextId → K → Body K N V σ B}

/-- A step preserves the invariant. -/
theorem Coherent.step {m m' : Machine K N V σ B} (hm : m.Coherent) (h : Transition body m m') :
    m'.Coherent where
  wired := h.wired hm.wired
  owned := h.obeys.scoped hm.owned
  backed hfocus := h.reply hfocus
  carried {c k v} hv := by
    rcases h.carries hv with hv | hv | ⟨x, l, p, receiver, w, hfocus, rfl, rfl, hcommit, hidles⟩
    · obtain ⟨u, hu, huv⟩ := hm.carried hv
      exact ⟨u, h.obeys.grows.stored c k u hu, huv⟩
    · exact ⟨v, hv, ReflBEq.rfl⟩
    · have hwired := hm.wired.focus
      rw [hfocus] at hwired
      obtain ⟨rfl, hparent⟩ := hwired
      obtain ⟨u, hu, huv⟩ := (hm.backed hfocus).committed hcommit hparent
      exact ⟨u, by rw [hidles.stored, hu], huv⟩

omit [ReflBEq V] in
/-- A step of another machine preserves the invariant, if it leaves alone the contexts of the
calls in progress. -/
theorem Coherent.interrupted {m o o' : Machine K N V σ B} (hm : m.Coherent)
    (shares : o.world = m.world) (h : Transition body o o')
    (apart : ∀ x, m.Holds x → ∀ k, o'.world.keyState x k = m.world.keyState x k) :
    ({ m with world := o'.world } : Machine K N V σ B).Coherent := by
  have hobeys := h.obeys
  rw [shares] at hobeys
  refine ⟨hm.wired.grows hobeys.grows, hobeys.scoped hm.owned, fun {x k u asker} hfocus => ?_,
    fun {c k v} hv => ?_⟩
  · have hholds : m.Holds x := Or.inr (by rw [hfocus])
    exact (hm.backed hfocus).grows hobeys.grows (apart x hholds k)
  · obtain ⟨u, hu, huv⟩ := hm.carried hv
    exact ⟨u, hobeys.grows.stored c k u hu, huv⟩

omit [ReflBEq V] in
/-- Whatever happens next, the world grows. -/
theorem FollowsAmong.grows {m m' : Machine K N V σ B} (h : FollowsAmong body m m') :
    m.world.Grows m'.world := by
  cases h with
  | own follows =>
      cases follows with
      | step made => exact (Transition.of_step made).obeys.grows
      | line ended client routine => exact World.Grows.of_eq rfl rfl
  | other o o' shares made apart =>
      rw [← shares]
      exact (Transition.of_step made).obeys.grows

/-- Whatever happens next preserves the invariant. -/
theorem Coherent.follows {m m' : Machine K N V σ B} (hm : m.Coherent)
    (h : FollowsAmong body m m') : m'.Coherent := by
  cases h with
  | own follows =>
      cases follows with
      | step made => exact hm.step (.of_step made)
      | line ended client routine =>
          have hobeys := (World.Idles.setClient m.world client).obeys .nothing
          exact .start (hobeys.scoped hm.owned) routine
  | other o o' shares made apart => exact hm.interrupted shares (.of_step made) apart

end Machine

/-! ### Runs -/

/-- A request for the key ends with this value, on the thread that made it or on one of several. -/
def Machine.Returns (m : Machine K N V σ B) (c : CacheId) (k : K) (v : V) : Prop :=
  match m.focus with
  | .deliver d l outcome _ => d = c ∧ l = k ∧ outcome = .returned (.ok v)
  | .wake d l _ outcomes _ => d = c ∧ l = k ∧ .returned (.ok v) ∈ outcomes
  | _ => False

omit [DecidableEq K] in
/-- A value that a request ends with is on its way. -/
theorem Machine.Returns.carries {m : Machine K N V σ B} {c : CacheId} {k : K} {v : V}
    (h : m.Returns c k v) : m.Carries c k v := by
  obtain ⟨w, focus, stack⟩ := m
  cases focus with
  | deliver d l outcome receiver => exact Or.inl ⟨h.1, h.2.1, Or.inl h.2.2⟩
  | wake d l waiting outcomes next => exact Or.inl h
  | _ => exact absurd h id

section Runs

variable [BEq V] [DecidableEq N] [ToString K] {body : B → ContextId → K → Body K N V σ B}
variable (e : Execution Machine.Starts (Machine.FollowsAmong body)) {c : CacheId} {k : K}

/-- Every state of a run satisfies the invariant. -/
theorem coherent [ReflBEq V] {i : Nat} (hi : i ≤ e.length) : (e.state i).Coherent := by
  refine e.invariant ?_ (fun _ _ h hm => hm.follows h) hi
  rintro m ⟨client, routine, rfl⟩
  exact .start (World.Scoped.empty_world client) routine

/-- What is published stays published. -/
theorem stored_lasts {i j : Nat} (hij : i ≤ j) (hj : j ≤ e.length) {v : V}
    (hv : (e.state i).world.stored c k = some v) : (e.state j).world.stored c k = some v := by
  refine e.lasts (P := fun m => m.world.stored c k = some v) hij hv fun n _ hn hv => ?_
  exact (e.goes n (Nat.lt_of_lt_of_le hn hj)).grows.stored c k v hv

/-- Published values are written once, and agree with all that requests for derived values
return: whenever a request ends with a value, an equal one is published at that moment. So all
the values that requests for a key ever end with are equal, and equal to what the cache answers
for the key from then on. -/
theorem derived_values_agree [EquivBEq V] :
    (∀ i j v, i ≤ j → j ≤ e.length → (e.state i).world.stored c k = some v →
      (e.state j).world.stored c k = some v) ∧
    (∀ i v, i ≤ e.length → (e.state i).Returns c k v →
      ∃ u, (e.state i).world.stored c k = some u ∧ (u == v) = true) ∧
    (∀ i j u v, i ≤ e.length → j ≤ e.length → (e.state i).Returns c k u →
      (e.state j).Returns c k v → (u == v) = true) ∧
    ∀ i j v answer w, i ≤ j → j ≤ e.length → (e.state i).Returns c k v →
      (e.state j).world.answer (.published c k) = some (answer, w) →
      ∃ u, answer = .ok (some u) ∧ (u == v) = true := by
  have hkeeps {i j : Nat} {v : V} (hij : i ≤ j) (hj : j ≤ e.length)
      (hv : (e.state i).Returns c k v) :
      ∃ u, (e.state j).world.stored c k = some u ∧ (u == v) = true := by
    obtain ⟨u, hu, huv⟩ := (coherent e (Nat.le_trans hij hj)).carried hv.carries
    exact ⟨u, stored_lasts e hij hj hu, huv⟩
  refine ⟨fun i j v hij hj hv => stored_lasts e hij hj hv,
    fun i v hi hv => hkeeps (Nat.le_refl i) hi hv, fun i j u v hi hj hu hv => ?_,
    fun i j v answer w hij hj hv hanswer => ?_⟩
  · have hmax : max i j ≤ e.length := Nat.max_le.2 ⟨hi, hj⟩
    obtain ⟨a, ha, hau⟩ := hkeeps (Nat.le_max_left i j) hmax hu
    obtain ⟨b, hb, hbv⟩ := hkeeps (Nat.le_max_right i j) hmax hv
    obtain rfl : a = b := Option.some.inj (ha.symm.trans hb)
    exact BEq.trans (BEq.symm hau) hbv
  · obtain ⟨u, hu, huv⟩ := hkeeps hij hj hv
    exact ⟨u, (coherent e hj).owned.published hu hanswer, huv⟩

end Runs

/-! ### A builder that publishes its own key -/

namespace PublishingBuilder

/-- The builder of a key publishes a value for it, and returns another one. -/
def body (_ : Unit) (_ : ContextId) (k : Nat) : Body Nat Unit Nat Unit Unit :=
  .perform (.insert ⟨0⟩ k 0) fun _ => .done (.ok k)

/-- There are builders, and no placeholders. -/
def config : Config Nat Nat Unit Unit where
  makeBuilder := some fun client => ((), client)

/-- A key is requested twice. -/
def main : Machine Nat Unit Nat Unit Unit :=
  .start { client := () } (.perform (.newCache config) fun c => .get c 7 fun _ => .get c 7 .done)

theorem main_runs : ∀ i < 10, ((main.run body i).step body).isSome = true := by
  decide +kernel

/-- The run of both requests. -/
def session : Execution Machine.Starts (Machine.FollowsAmong body) :=
  main.runExecution 10 ⟨(), _, rfl⟩ (fun _ _ h => .own (.step h)) main_runs

/-- A pass that has lost against its own builder returns what the builder has published. -/
theorem session_values_agree :
    (session.state 7).Returns ⟨0⟩ 7 0 ∧
      (session.state 9).Returns ⟨0⟩ 7 0 ∧
      (∃ u, (session.state 7).world.stored ⟨0⟩ 7 = some u ∧ (u == 0) = true) ∧
      ((0 : Nat) == 0) = true ∧
      (session.state 10).world.stored ⟨0⟩ 7 = some 0 ∧
      ∃ u, (Except.ok (some 0) : Except Violation (Option Nat)) = .ok (some u) ∧
        (u == 0) = true := by
  obtain ⟨hstored, hreturns, hequal, hpublished⟩ :=
    derived_values_agree session (c := ⟨0⟩) (k := 7)
  have first : (session.state 7).Returns ⟨0⟩ 7 0 := ⟨rfl, rfl, rfl⟩
  have second : (session.state 9).Returns ⟨0⟩ 7 0 := ⟨rfl, rfl, rfl⟩
  have answer : (session.state 10).world.answer (.published ⟨0⟩ 7) =
      some (.ok (some 0), (session.state 10).world) := rfl
  exact ⟨first, second, hreturns 7 _ (by decide) first,
    hequal 7 9 _ _ (by decide) (by decide) first second,
    hstored 9 10 _ (by decide) (by decide) rfl,
    hpublished 7 10 _ _ _ (by decide) (by decide) first answer⟩

end PublishingBuilder

end DerivationCache
