import DerivationCache.Proofs.ForeignKey
import DerivationCache.Proofs.Isolation

/-!
# Namespaces

A registry gives each namespace a cache of its own. A namespace is listed with its cache from the
first time that it is asked for, and keeps this cache. No cache is listed twice, by one registry or
by several, since each is made for the entry that it is listed under (`World.Allotted`).

All caches of a registry share its configuration, and with it the builders and the way to make
stand-ins. They share nothing else. If builders act only on the context that they run in, then
whatever is done with one cache leaves the others alone, and is answered as if there were no others.

## Main results

* `Machine.step_lists`: what a registry lists is what it was asked for.
* `World.Allotted.step`: no cache is listed twice.
* `namespaces_isolated`: both properties over all runs.
-/

namespace DerivationCache

variable {K N V σ B ι : Type}

/-! ### What registries list -/

namespace World

variable [DecidableEq N] {w w' : World K N V σ B} {r s : RegistryId} {ns ns' : N} {c d : CacheId}

/-- The registry lists this cache for the namespace. -/
def Lists (w : World K N V σ B) (r : RegistryId) (ns : N) (c : CacheId) : Prop :=
  ∃ registry, w.registry? r = some registry ∧ registry.caches.get? ns = some c

/-- A registry lists at most one cache for a namespace. -/
theorem Lists.functional (hc : w.Lists r ns c) (hd : w.Lists r ns d) : c = d := by
  obtain ⟨registry, hr, hget⟩ := hc
  obtain ⟨registry', hr', hget'⟩ := hd
  obtain rfl := Option.some.inj (hr.symm.trans hr')
  exact Option.some.inj (hget.symm.trans hget')

/-- What is listed depends on the registries alone. -/
theorem lists_congr (h : w'.registries = w.registries) : w'.Lists r ns c ↔ w.Lists r ns c := by
  simp only [Lists, registry?, h]

/-- A new registry lists nothing. -/
theorem newRegistry_lists (w : World K N V σ B) (template : Config K V σ B)
    (belongs : Option (N → K → Bool)) :
    (w.newRegistry template belongs).2.Lists r ns c ↔ w.Lists r ns c := by
  simp only [Lists, World.newRegistry, registry?, Array.getElem?_push]
  split
  · rename_i hr
    simp [hr]
  · rfl

/-- The cache of a namespace is listed for it, or is made and listed now. -/
theorem scopedCache_lists (h : w.scopedCache r ns = some (c, w')) :
    (w' = w ∧ w.Lists r ns c) ∨
      (w.cache? c = none ∧ (∃ cache, w'.cache? c = some cache) ∧
        ∀ s ns' d, w'.Lists s ns' d ↔ w.Lists s ns' d ∨ s = r ∧ ns' = ns ∧ d = c) := by
  obtain ⟨registry, hr, h⟩ := Option.map_eq_some_iff.1 h
  cases hget : registry.caches.get? ns with
  | some d =>
      simp only [hget, Prod.mk.injEq] at h
      obtain ⟨rfl, rfl⟩ := h
      exact Or.inl ⟨rfl, registry, hr, hget⟩
  | none =>
      simp only [hget, Prod.mk.injEq] at h
      obtain ⟨rfl, rfl⟩ := h
      have hmade := (w.cache?_newCache (registry.configFor ns) _).trans (if_pos rfl)
      refine Or.inr ⟨by simp [newCache, cache?], ⟨_, hmade⟩, fun s ns' d => ?_⟩
      have hsame (t : RegistryId) :
          World.registry? (w.newCache (registry.configFor ns)).2 t = w.registry? t := rfl
      simp only [Lists, registry?_setRegistry]
      by_cases hrs : r = s
      · subst hrs
        simp only [if_pos, hsame, hr, Option.map_some, Option.some.injEq, exists_eq_left',
          Table.get?_insert]
        by_cases hns : ns = ns'
        · subst hns
          simp [hget, eq_comm]
        · simp [hns, Ne.symm hns]
      · simp [if_neg hrs, hsame, Ne.symm hrs]

/-- The caches that are listed exist, and each is listed once. -/
structure Allotted (w : World K N V σ B) : Prop where
  made : ∀ r ns c, w.Lists r ns c → ∃ cache, w.cache? c = some cache
  once : ∀ r s ns ns' c, w.Lists r ns c → w.Lists s ns' c → r = s ∧ ns = ns'

/-- The cache exists, and no registry lists it. -/
structure Unlisted (w : World K N V σ B) (c : CacheId) : Prop where
  made : ∃ cache, w.cache? c = some cache
  alone : ∀ r ns, ¬ w.Lists r ns c

/-- A world without registries lists nothing. -/
theorem Allotted.empty_world (client : σ) : ({ client } : World K N V σ B).Allotted where
  made r ns c := by
    rintro ⟨registry, hr, -⟩
    simp at hr
  once r s ns ns' c := by
    rintro ⟨registry, hr, -⟩
    simp at hr

end World

/-! ### What is asked for -/

section Steps

variable [DecidableEq N]

/-- The machine is about to be given this cache for the namespace. -/
def Machine.Asks (m : Machine K N V σ B) (r : RegistryId) (ns : N) (c : CacheId) : Prop :=
  ∃ next w', m.focus = .run (.perform (.scopedCache r ns) next) ∧
    m.world.scopedCache r ns = some (c, w')

variable [DecidableEq K] [BEq V] [ToString K] {body : B → ContextId → K → Body K N V σ B}
  {m m' : Machine K N V σ B} {r : RegistryId} {ns : N} {c : CacheId}

namespace Machine

/-- What is asked for is answered by the step. -/
theorem Asks.answered (ha : m.Asks r ns c) (h : m.step body = some m') :
    m.world.scopedCache r ns = some (c, m'.world) ∧
      ∃ next, m.focus = .run (.perform (.scopedCache r ns) next) ∧ m'.focus = .run (next c) := by
  obtain ⟨next, w', hfocus, hanswer⟩ := ha
  have hstep : m.step body = some (m.move w' (.run (next c))) := by
    rw [step, hfocus]
    simp only [stepRun, World.answer, hanswer, bind, Option.bind_some]
    rfl
  obtain rfl := Option.some.inj (hstep.symm.trans h)
  exact ⟨hanswer, next, hfocus, rfl⟩

/-- A step lists what has been asked for, and nothing else. -/
theorem step_lists (h : m.step body = some m') :
    m'.world.Lists r ns c ↔ m.world.Lists r ns c ∨ m.Asks r ns c := by
  by_cases hasked : ∃ id ns₀ next, m.focus = .run (.perform (.scopedCache id ns₀) next)
  · obtain ⟨id, ns₀, next, hfocus⟩ := hasked
    simp only [step, hfocus, stepRun, bind, Option.bind_eq_some_iff] at h
    obtain ⟨⟨c₀, w'⟩, hanswer, h⟩ := h
    obtain rfl := Option.some.inj h
    have hasks : m.Asks r ns c ↔ r = id ∧ ns = ns₀ ∧ c = c₀ := by
      constructor
      · rintro ⟨next', w'', hfocus', hanswer'⟩
        simp only [hfocus, Focus.run.injEq, Routine.perform.injEq, Request.scopedCache.injEq]
          at hfocus'
        obtain ⟨⟨rfl, rfl⟩, -⟩ := hfocus'
        exact ⟨rfl, rfl, (Prod.mk.inj (Option.some.inj (hanswer'.symm.trans hanswer))).1⟩
      · rintro ⟨rfl, rfl, rfl⟩
        exact ⟨next, w', hfocus, hanswer⟩
    rw [hasks]
    rcases World.scopedCache_lists hanswer with ⟨rfl, hlisted⟩ | ⟨-, -, hlists⟩
    · refine (or_iff_left_of_imp ?_).symm
      rintro ⟨rfl, rfl, rfl⟩
      exact hlisted
    · exact hlists r ns c
  · have hnone : ¬ m.Asks r ns c := by
      rintro ⟨next, -, hfocus, -⟩
      exact hasked ⟨r, ns, next, hfocus⟩
    rw [or_iff_left hnone]
    rcases step_registries h with hsame | ⟨q, next, a, hfocus, hanswer⟩
    · exact World.lists_congr hsame
    · by_cases hnew : ∃ template belongs, q = .newRegistry template belongs
      · obtain ⟨template, belongs, rfl⟩ := hnew
        obtain ⟨-, hw⟩ := Prod.mk.inj (Option.some.inj hanswer)
        rw [← hw]
        exact m.world.newRegistry_lists template belongs
      · refine World.lists_congr (World.answer_registries hanswer ?_ ?_)
        · exact fun template belongs hq => hnew ⟨template, belongs, hq⟩
        · rintro id ns₀ rfl
          exact hasked ⟨id, ns₀, next, hfocus⟩

/-- No cache is ever listed twice. -/
theorem allotted_step (h : m.step body = some m') (hw : m.world.Allotted) : m'.world.Allotted := by
  have hgrows := grows_of_step h
  have hlisted {r s : RegistryId} {ns ns' : N} {c : CacheId} (hold : m.world.Lists r ns c)
      (hasks : m.Asks s ns' c) : r = s ∧ ns = ns' := by
    rcases World.scopedCache_lists (hasks.answered h).1 with ⟨-, hs⟩ | ⟨hnone, -, -⟩
    · exact hw.once r s ns ns' c hold hs
    · obtain ⟨cache, hcache⟩ := hw.made r ns c hold
      simp [hnone] at hcache
  refine ⟨fun r ns c hc => ?_, fun r s ns ns' c hr hs => ?_⟩
  · have hlasts (hold : m.world.Lists r ns c) : ∃ cache, m'.world.cache? c = some cache := by
      obtain ⟨cache, hcache⟩ := hw.made r ns c hold
      exact (hgrows.caches c cache hcache).imp fun _ hcache => hcache.1
    rcases (step_lists h).1 hc with hold | hasks
    · exact hlasts hold
    · rcases World.scopedCache_lists (hasks.answered h).1 with ⟨-, hold⟩ | ⟨-, hmade, -⟩
      · exact hlasts hold
      · exact hmade
  · rcases (step_lists h).1 hr with hr | hr <;> rcases (step_lists h).1 hs with hs | hs
    · exact hw.once r s ns ns' c hr hs
    · exact hlisted hr hs
    · obtain ⟨rfl, rfl⟩ := hlisted hs hr
      exact ⟨rfl, rfl⟩
    · obtain ⟨next, -, hfocus, -⟩ := hr
      obtain ⟨next', -, hfocus', -⟩ := hs
      simp only [hfocus, Focus.run.injEq, Routine.perform.injEq, Request.scopedCache.injEq]
        at hfocus'
      exact hfocus'.1

/-- A cache that was made without a registry is not listed later. -/
theorem unlisted_step (h : m.step body = some m') (hc : m.world.Unlisted c) :
    m'.world.Unlisted c := by
  obtain ⟨⟨cache, hcache⟩, hnone⟩ := hc
  refine ⟨((grows_of_step h).caches c cache hcache).imp fun _ hcache => hcache.1,
    fun r ns hlists => ?_⟩
  rcases (step_lists h).1 hlists with hold | hasks
  · exact hnone r ns hold
  · rcases World.scopedCache_lists (hasks.answered h).1 with ⟨-, hold⟩ | ⟨hfresh, -, -⟩
    · exact hnone r ns hold
    · simp [hfresh] at hcache

end Machine

/-- A transcript notes each cache of a namespace as it is listed. -/
theorem Transcript.lists {client : σ} {log : List (Option CacheId × Exchange K N V σ B)}
    {w : World K N V σ B} (h : Transcript body { client } log w) :
    w.Allotted ∧ ∀ t r ns c, (t, .request (.scopedCache r ns) c) ∈ log → w.Lists r ns c := by
  induction h with
  | nil => exact ⟨.empty_world client, fun t r ns c hp => by simp at hp⟩
  | snoc before occurs ih =>
      rename_i log w w₁ x
      obtain ⟨hallotted, hlists⟩ := ih
      refine ⟨occurs.invariant Machine.allotted_step hallotted, fun t r ns c hp => ?_⟩
      rcases List.mem_append.1 hp with hp | hp
      · exact occurs.invariant (P := fun w => w.Lists r ns c)
          (fun made hold => (Machine.step_lists made).2 (Or.inl hold)) (hlists t r ns c hp)
      · obtain ⟨-, hx⟩ := Prod.mk.inj (List.mem_singleton.1 hp)
        subst hx
        cases occurs with
        | request answer =>
            rcases World.scopedCache_lists answer with ⟨rfl, hold⟩ | ⟨-, -, hiff⟩
            · exact hold
            · exact (hiff r ns c).2 (Or.inr ⟨rfl, rfl, rfl⟩)

end Steps

/-! ### Runs -/

section Runs

variable [DecidableEq K] [DecidableEq N] [BEq V] [ToString K] [DecidableEq ι]
  {body : B → ContextId → K → Body K N V σ B} {s s' : Ensemble ι K N V σ B} {r : RegistryId}
  {ns : N} {c : CacheId}

/-- Registries list what has been asked for, whoever asks. -/
theorem Ensemble.Next.lists (h : Next body s s') :
    s'.world.Lists r ns c ↔ s.world.Lists r ns c ∨ s.current.Asks r ns c := by
  cases h with
  | step made turn => exact Machine.step_lists made
  | line ended idle task fresh client turn =>
      have hnone : ¬ s.current.Asks r ns c := by
        rintro ⟨next, w', hfocus, hanswer⟩
        simp [Machine.step, hfocus, Machine.stepRun, World.answer, hanswer, bind] at ended
      rw [or_iff_left hnone]
      exact World.lists_congr rfl

/-- A machine that has a step to make makes it. -/
theorem Ensemble.Next.world_of_step (h : Next body s s') {m : Machine K N V σ B}
    (made : s.current.step body = some m) : s'.world = m.world := by
  cases h with
  | step made' turn =>
      obtain rfl := Option.some.inj (made.symm.trans made')
      rfl
  | line ended idle task fresh client turn => simp [made] at ended

/-- What every step of a machine preserves, and the shared state has no part in, is preserved. -/
theorem Ensemble.Next.preserves {P : World K N V σ B → Prop} (h : Next body s s')
    (hstep : ∀ {m m' : Machine K N V σ B}, m.step body = some m' → P m.world → P m'.world)
    (hclient : ∀ {w : World K N V σ B} (client : σ), P w → P { w with client })
    (hs : P s.world) : P s'.world := by
  cases h with
  | step made turn => exact hstep made hs
  | line ended idle task fresh client turn => exact hclient client hs

namespace Execution

variable (e : Execution (Ensemble.Starts (ι := ι)) (Ensemble.Next body))

/-- What is listed is what has been asked for so far. -/
theorem lists_iff {i : ℕ} (hi : i ≤ e.length) : (e.state i).world.Lists r ns c ↔
    ∃ j < i, (e.state j).current.Asks r ns c := by
  induction i with
  | zero =>
      obtain ⟨⟨client, hworld⟩, -⟩ := e.starts
      rw [hworld]
      refine iff_of_false ?_ fun ⟨j, hj, _⟩ => absurd hj (Nat.not_lt_zero j)
      rintro ⟨registry, hr, -⟩
      simp at hr
  | succ i ih =>
      rw [(e.goes i hi).lists, ih (Nat.le_of_succ_le hi)]
      constructor
      · rintro (⟨j, hj, hasks⟩ | hasks)
        · exact ⟨j, Nat.lt_succ_of_lt hj, hasks⟩
        · exact ⟨i, Nat.lt_succ_self i, hasks⟩
      · rintro ⟨j, hj, hasks⟩
        rcases Nat.lt_succ_iff_lt_or_eq.1 hj with hj | rfl
        · exact Or.inl ⟨j, hj, hasks⟩
        · exact Or.inr hasks

/-- In every state of a run, the listed caches are there, and each of them is listed once. -/
theorem allotted {i : ℕ} (hi : i ≤ e.length) : (e.state i).world.Allotted := by
  refine e.invariant (I := fun s => s.world.Allotted) ?_ ?_ hi
  · rintro s ⟨⟨client, hworld⟩, -⟩
    rw [hworld]
    exact .empty_world client
  · rintro s s' hnext hs
    exact hnext.preserves Machine.allotted_step (fun _ hw => ⟨hw.made, hw.once⟩) hs

/-- A cache that is made without a registry is never listed. -/
theorem unlisted {j : ℕ} (hj : j < e.length) {config : Config K V σ B}
    {next : CacheId → Body K N V σ B}
    (hfocus : (e.state j).current.focus = .run (.perform (.newCache config) next)) :
    (e.state e.length).world.Unlisted ((e.state j).world.newCache config).1 := by
  have hmade : (e.state (j + 1)).world.Unlisted ((e.state j).world.newCache config).1 := by
    have hstep : (e.state j).current.step body = some ((e.state j).current.move
        ((e.state j).world.newCache config).2
        (.run (next ((e.state j).world.newCache config).1))) := by
      rw [Machine.step, hfocus]
      rfl
    have hworld := (e.goes j hj).world_of_step hstep
    refine ⟨⟨.ofConfig config, ?_⟩, fun r ns hlists => ?_⟩
    · rw [hworld]
      exact (World.cache?_newCache ..).trans (if_pos rfl)
    · rw [hworld] at hlists
      obtain ⟨cache, hcache⟩ := (e.allotted hj.le).made r ns _ ((World.lists_congr rfl).1 hlists)
      simp [World.newCache, World.cache?] at hcache
  exact e.lasts (P := fun s => s.world.Unlisted ((e.state j).world.newCache config).1)
    (Nat.succ_le_of_lt hj) hmade fun i _ hi hs => (e.goes i hi).preserves
      (P := fun w => w.Unlisted _) Machine.unlisted_step (fun _ hw => ⟨hw.made, hw.alone⟩) hs

end Execution

/-- A registry gives each namespace a cache of its own. -/
structure OwnCaches (e : Execution (Ensemble.Starts (ι := ι)) (Ensemble.Next body)) : Prop where
  /-- Two handles are of one cache if and only if one registry was asked for one namespace. -/
  handles : ∀ i < e.length, ∀ j < e.length, ∀ r s ns ns' c d,
    (e.state i).current.Asks r ns c → (e.state j).current.Asks s ns' d →
    (c = d ↔ r = s ∧ ns = ns')
  /-- No handle is of a cache that was made without a registry. -/
  direct : ∀ i < e.length, ∀ j < e.length, ∀ r ns c config next,
    (e.state i).current.Asks r ns c →
    (e.state j).current.focus = .run (.perform (.newCache config) next) →
    c ≠ ((e.state j).world.newCache config).1
  /-- The namespaces of a registry are those that it was asked for so far. -/
  namespaces : ∀ i ≤ e.length, ∀ r registry, (e.state i).world.registry? r = some registry →
    registry.namespaces.Nodup ∧ registry.size = registry.namespaces.length ∧
    ∀ ns, (ns ∈ registry.namespaces ↔ ∃ j < i, ∃ c, (e.state j).current.Asks r ns c) ∧
      (registry.containsNamespace ns = true ↔ ns ∈ registry.namespaces)
  /-- A registry that is made with a template gives out caches of the template from then on. -/
  configs : ∀ i < e.length, ∀ template belongs next,
    (e.state i).current.focus = .run (.perform (.newRegistry template belongs) next) →
    ∃ r, ((e.state (i + 1)).machine (e.state i).turn).focus = .run (next r) ∧
      ∀ j, i < j → j ≤ e.length →
        (∀ ns, ∃ c w', (e.state j).world.scopedCache r ns = some (c, w')) ∧
        ∀ l < j, ∀ ns c, (e.state l).current.Asks r ns c →
          ∃ cache, (e.state j).world.cache? c = some cache ∧
            cache.config.makeBuilder = template.makeBuilder ∧
            cache.config.placeholders = template.placeholders ∧
            cache.config.cachesFailures = template.cachesFailures

/-- In every run, a namespace of a registry has a cache of its own. -/
theorem ownCaches (e : Execution (Ensemble.Starts (ι := ι)) (Ensemble.Next body)) :
    OwnCaches e where
  handles i hi j hj r s ns ns' c d hc hd := by
    have hlists := (e.lists_iff le_rfl).2 ⟨i, hi, hc⟩
    have hlists' := (e.lists_iff le_rfl).2 ⟨j, hj, hd⟩
    constructor
    · rintro rfl
      exact (e.allotted le_rfl).once r s ns ns' c hlists hlists'
    · rintro ⟨rfl, rfl⟩
      exact hlists.functional hlists'
  direct i hi j hj r ns c config next hc hfocus := by
    rintro rfl
    -- A cache that was made directly is listed by no registry, at any time.
    exact (e.unlisted hj hfocus).alone r ns ((e.lists_iff le_rfl).2 ⟨i, hi, hc⟩)
  namespaces i hi r registry hr := by
    have hcontains (ns : N) : registry.containsNamespace ns = true ↔ ns ∈ registry.namespaces :=
      (registry.caches.mem_keys ns).symm
    refine ⟨registry.caches.nodup_keys, ?_, fun ns => ⟨?_, hcontains ns⟩⟩
    · exact (List.length_map Prod.fst).symm
    · rw [← hcontains ns, Registry.containsNamespace, Table.contains_iff]
      have hlists (c : CacheId) : registry.caches.get? ns = some c ↔
          ∃ j < i, (e.state j).current.Asks r ns c := by
        rw [← e.lists_iff hi]
        constructor
        · exact fun hget => ⟨registry, hr, hget⟩
        · rintro ⟨registry', hr', hget⟩
          obtain rfl := Option.some.inj (hr.symm.trans hr')
          exact hget
      simp only [hlists]
      constructor
      · rintro ⟨c, j, hj, hasks⟩
        exact ⟨j, hj, c, hasks⟩
      · rintro ⟨j, hj, c, hasks⟩
        exact ⟨c, j, hj, hasks⟩
  configs i hi template belongs next hfocus := by
    obtain ⟨r, hnext, hmade⟩ := (e.goes i hi).makes_registry hfocus
    refine ⟨r, hnext, fun j hij hj => ?_⟩
    have hlasts : (e.state j).world.Registered r template belongs :=
      e.lasts (P := fun s => s.world.Registered r template belongs) (Nat.succ_le_of_lt hij)
        hmade fun l _ hl hr => (e.goes l (Nat.lt_of_lt_of_le hl hj)).registered hr
    refine ⟨hlasts.answers, fun l hl ns c hasks => ?_⟩
    obtain ⟨registry, hr, htemplate, hbelongs, hlisted⟩ := hlasts
    obtain ⟨registry', hr', hget⟩ := (e.lists_iff hj).2 ⟨l, hl, hasks⟩
    obtain rfl := Option.some.inj (hr.symm.trans hr')
    obtain ⟨cache, hcache, hconfig⟩ := hlisted ns c hget
    refine ⟨cache, hcache, ?_⟩
    rw [hconfig, ← htemplate, Registry.configFor]
    cases registry.belongs <;> exact ⟨rfl, rfl, rfl⟩

/-- The caches of a world have nothing to do with each other. -/
structure Isolated [MulAction Renaming V] (S : Supply σ) (recipe : B → K → Recipe K V) (client : σ)
    (log : List (Option CacheId × Exchange K N V σ B)) (w : World K N V σ B) : Prop where
  /-- Namespaces share a cache if and only if they are equal. -/
  handles : ∀ t u r s ns ns' c d, (t, .request (.scopedCache r ns) c) ∈ log →
    (u, .request (.scopedCache s ns') d) ∈ log → (c = d ↔ r = s ∧ ns = ns')
  /-- Whatever is done leaves all caches as they are but the one that it is addressed to, at any
  moment. -/
  undisturbed : ∀ x : Exchange K N V σ B, x.Plain → ∀ n d cache, w.cache? d = some cache →
    w.addressee x ≠ some d → World.cache?
      (Machine.run (Recipe.builders S recipe) n (.start w x.routine)).world d = some cache
  /-- What was done with a cache had the same results as it has alone. -/
  alone : ∀ c cache, w.cache? c = some cache →
    ∃ π w', Alone S recipe client cache.config log w c π w'

/-- Over every run of any number of machines, with any builders, a registry gives each namespace a
cache of its own: two handles are of one cache if and only if one registry was asked for one
namespace, its namespaces are those that it was asked for so far, without repetition, and their
caches have the builders, the way to make stand-ins and the failure policy of the template.

And if builders act only on the context that they run in, and collaborators keep no state but the
number of failures raised, then after any exchanges with a world, nothing that is done with one
cache changes another one, even while it is being done. The exchanges with each cache are those that
a client has who makes them with this cache alone, but for the numbers of things, and they leave the
same cache behind. -/
theorem namespaces_isolated [MulAction Renaming V] [RenamesAlike V]
    (e : Execution (Ensemble.Starts (ι := ι)) (Ensemble.Next body)) {S : Supply σ}
    {recipe : B → K → Recipe K V} (hrecipe : ∀ π b k, (recipe b k).Renamed π (recipe b k))
    {client : σ} {log : List (Option CacheId × Exchange K N V σ B)} {w : World K N V σ B}
    (h : Transcript (Recipe.builders S recipe) { client } log w) (hplain : ∀ p ∈ log, p.2.Plain) :
    OwnCaches e ∧ Isolated S recipe client log w := by
  have hdivided := h.divided hrecipe hplain
  obtain ⟨hallotted, hlists⟩ := h.lists
  refine ⟨ownCaches e, ?_, fun x hx n d cache hd hne => ?_, fun c cache hc =>
    (hdivided.alone c cache hc).exists_related⟩
  · intro t u r s ns ns' c d hc hd
    have hc' := hlists t r ns c hc
    have hd' := hlists u s ns' d hd
    constructor
    · rintro rfl
      exact hallotted.once r s ns ns' c hc' hd'
    · rintro ⟨rfl, rfl⟩
      exact hc'.functional hd'
  · obtain ⟨t, hspares, ht⟩ := hdivided.run_spares hrecipe hx n
    refine (hspares.caches d cache fun he => ?_).2 hd
    rcases ht d he.symm with haddressee | hnone
    · exact hne haddressee
    · simp [hnone] at hd

end Runs

/-! ### Two tenants -/

namespace TwoTenants

/-- A number, or a stand-in that refers to a cell. -/
inductive Value where
  | plain (n : ℕ)
  | hole (cell : CellId)
  deriving DecidableEq

/-- A renaming acts on the cell of a stand-in. -/
instance : MulAction Renaming Value where
  smul π
    | .plain n => .plain n
    | .hole h => .hole (π • h)
  one_smul v := by cases v <;> rfl
  mul_smul π ρ v := by cases v <;> rfl

/-- Renamed values are equal if and only if the values are. -/
instance : RenamesAlike Value where
  beq_smul π u v := by
    have hsame : π • u = π • v ↔ u = v := smul_left_cancel_iff π
    simp [beq_eq_decide, hsame]

/-- The shared state is the number of failures raised. -/
def supply : Supply ℕ := ⟨id, (· + 1), fun _ => rfl⟩

/-- One key is requested again while it is being derived. The other one always fails. -/
def recipe (_ : Unit) : Bool → Recipe Bool Value
  | true => .request true fun _ => .done (.ok (.plain 1))
  | false => .raise "no value" fun f => .done (.error (.failure f))

/-- The recipe names nothing but keys, so renaming has no effect on it. -/
theorem recipe_renamed (π : Renaming) (b : Unit) (k : Bool) :
    (recipe b k).Renamed π (recipe b k) := by
  cases k with
  | true => exact .request true fun _ => .done (.ok (Value.plain 1))
  | false => exact .raise "no value" fun f => .done (.error (.failure f))

/-- What the caches of both tenants are made from. Failures are remembered. -/
def template : Config Bool Value ℕ Unit where
  makeBuilder := some fun n => ((), n)
  placeholders := some fun _ h n => ((.forwarding, .hole h), n)
  cachesFailures := true

/-- The collaborators of the template act on what they are given, and on nothing else. -/
theorem template_plain : template.Plain where
  builder make h := by
    obtain rfl := Option.some.inj h
    exact ⟨(), fun _ => rfl⟩
  placeholders f h := by
    obtain rfl := Option.some.inj h
    exact ⟨fun _ _ _ => rfl, fun _ _ _ _ _ => rfl⟩

/-- The builders that follow the recipe. -/
abbrev body : Unit → ContextId → Bool → Body Bool Bool Value ℕ Unit :=
  Recipe.builders supply recipe

/-- What a client does, one after the other: the second failure is one of the first cache. -/
def trade : ℕ → Exchange Bool Bool Value ℕ Unit
  | 0 => .request (.newRegistry template none) ⟨0⟩
  | 1 => .request (.scopedCache ⟨0⟩ true) ⟨0⟩
  | 2 => .request (.scopedCache ⟨0⟩ false) ⟨1⟩
  | 3 => .got ⟨0⟩ true (.returned (.ok (.plain 1)))
  | 4 => .got ⟨1⟩ false (.returned (.error (.failure ⟨.counted 0, "no value"⟩)))
  | _ => .got ⟨0⟩ false (.returned (.error (.failure ⟨.counted 1, "no value"⟩)))

/-- How many steps it takes. -/
def steps : ℕ → ℕ
  | 3 => 8
  | 4 => 7
  | 5 => 7
  | _ => 1

/-- The worlds between the exchanges. -/
def world : ℕ → World Bool Bool Value ℕ Unit
  | 0 => { client := 0 }
  | i + 1 => (Machine.run body (steps i) (.start (world i) (trade i).routine)).world

/-- The exchanges so far, each with the cache that it is addressed to. -/
def log : ℕ → List (Option CacheId × Exchange Bool Bool Value ℕ Unit)
  | 0 => []
  | i + 1 => log i ++ [((world i).addressee (trade i), trade i)]

/-- Each of the six exchanges takes place. -/
theorem trade_occurs : ∀ i < 6, (trade i).Occurs body (world i) (world (i + 1))
  | 0, _ => .request rfl
  | 1, _ => .request rfl
  | 2, _ => .request rfl
  | 3, _ => .got 8 rfl
  | 4, _ => .got 7 rfl
  | 5, _ => .got 7 rfl

/-- The exchanges so far are a transcript of what happened. -/
theorem transcript : ∀ i ≤ 6, Transcript body { client := 0 } (log i) (world i)
  | 0, _ => .nil
  | i + 1, hi => (transcript i (Nat.le_of_succ_le hi)).snoc (trade_occurs i hi)

/-- No exchange brings in a collaborator that knows more than it is told. -/
theorem trade_plain : ∀ i, (trade i).Plain
  | 0 => template_plain
  | 1 => trivial
  | 2 => trivial
  | 3 => trivial
  | 4 => trivial
  | _ + 5 => trivial

/-- The same of the exchanges so far. -/
theorem log_plain (i : ℕ) : ∀ p ∈ log i, p.2.Plain := by
  induction i with
  | zero => exact fun p hp => absurd hp List.not_mem_nil
  | succ i ih =>
      intro p hp
      rcases List.mem_append.1 hp with hp | hp
      · exact ih p hp
      · exact List.mem_singleton.1 hp ▸ trade_plain i

/-- A registry is made, and is asked for one namespace, for another one, and for the first one
again. -/
def main : Ensemble Unit Bool Bool Value ℕ Unit where
  world := { client := 0 }
  task _ := ⟨.run (.perform (.newRegistry template none) fun r =>
    .perform (.scopedCache r true) fun _ => .perform (.scopedCache r false) fun _ =>
      .perform (.scopedCache r true) fun _ => .perform (.newCache template) fun _ => .halt), []⟩
  turn := ()

theorem main_runs :
    ∀ i < 5, ((main.run body i fun _ => ()).current.step body).isSome = true := by
  decide +kernel

/-- The run in which the registry is asked three times. -/
def session : Execution (Ensemble.Starts (ι := Unit)) (Ensemble.Next body) :=
  main.runExecution (fun _ => ()) 5 ⟨⟨0, rfl⟩, fun _ => ⟨⟨_, rfl⟩, rfl⟩⟩ main_runs

/-- The two tenants have caches of their own, and get the values and failures that they would get
alone. -/
theorem session_isolated :
    (session.state 1).current.Asks ⟨0⟩ true ⟨0⟩ ∧
    (session.state 2).current.Asks ⟨0⟩ false ⟨1⟩ ∧
    (session.state 3).current.Asks ⟨0⟩ true ⟨0⟩ ∧
    (∀ π b k, (recipe b k).Renamed π (recipe b k)) ∧
    Transcript body { client := 0 } (log 6) (world 6) ∧
    (∀ p ∈ log 6, p.2.Plain) ∧
    OwnCaches session ∧
    Isolated supply recipe 0 (log 6) (world 6) := by
  have htranscript := transcript 6 le_rfl
  have hplain := log_plain 6
  exact ⟨⟨_, _, rfl, rfl⟩, ⟨_, _, rfl, rfl⟩, ⟨_, _, rfl, rfl⟩, recipe_renamed, htranscript,
    hplain, namespaces_isolated session recipe_renamed htranscript hplain⟩

end TwoTenants

end DerivationCache
