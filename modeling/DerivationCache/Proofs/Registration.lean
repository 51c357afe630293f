import DerivationCache.Proofs.Operation
import DerivationCache.Proofs.Transition

/-!
# Registries over time

A registry is made once, with a template and possibly a rule of its own for the keys of each
namespace, and only ever gains caches. `World.Registered` says so of a world: the registry is what
it was made with, and all that it lists are caches with the configuration that it has for their
namespaces. Two requests touch registries, and every other step leaves them alone.

## Main results

* `Machine.step_registries`: registries change at no other step than a request for it.
* `World.Registered.step`: what a registry was made with lasts, and so does what it lists.
* `World.Registered.cache_of_scopedCache`: the cache of a namespace has the configuration that the
  registry has for it.
-/

namespace DerivationCache

variable {K N V σ B : Type}

namespace World

/-- The registry was made with this template and this rule, and lists caches that were made for
their namespaces. -/
def Registered [DecidableEq N] (w : World K N V σ B) (r : RegistryId) (template : Config K V σ B)
    (belongs : Option (N → K → Bool)) : Prop :=
  ∃ registry, w.registry? r = some registry ∧ registry.template = template ∧
    registry.belongs = belongs ∧ ∀ ns c, registry.caches.get? ns = some c →
      ∃ cache, w.cache? c = some cache ∧ cache.config = registry.configFor ns

variable {w w' : World K N V σ B}

/-- In a world that was just made there is no registry. -/
@[simp] theorem registry?_init (client : σ) (r : RegistryId) :
    registry? ({ client } : World K N V σ B) r = none := by
  unfold registry?
  simp

/-- A new registry is there, and the other ones are as they were. -/
theorem registry?_newRegistry (w : World K N V σ B) (template : Config K V σ B)
    (belongs : Option (N → K → Bool)) (r : RegistryId) :
    registry? (w.newRegistry template belongs).2 r =
      if r = (w.newRegistry template belongs).1 then some { template, belongs }
      else w.registry? r := by
  obtain ⟨i⟩ := r
  unfold registry? newRegistry
  simp only [Array.getElem?_push, RegistryId.mk.injEq]

/-- What is found under the name of a registry depends on the registries alone. -/
theorem registry?_of_registries (hsame : w'.registries = w.registries) (r : RegistryId) :
    w'.registry? r = w.registry? r :=
  congrArg (·[r.index]?) hsame

/-! ### Operations that leave registries alone -/

section Kept

/-- What is done to a cache leaves the registries alone. -/
theorem onCache_registries {α : Type} {c : CacheId} {f : Cache K V σ B → α × Cache K V σ B} {a : α}
    (h : w.onCache c f = some (a, w')) : w'.registries = w.registries := by
  obtain ⟨cache, -, h⟩ := Option.map_eq_some_iff.1 h
  obtain ⟨-, rfl⟩ := Prod.mk.inj h
  rfl

/-- Counting leaves the registries alone. -/
theorem countOnParent_registries (w : World K N V σ B) (context : Context K V σ B)
    (e : Metrics.Event) : (w.countOnParent context e).registries = w.registries := by
  rw [countOnParent]
  split
  · rfl
  · split <;> rfl

/-- Making a context leaves the registries alone. -/
theorem createContext_registries {c : CacheId} {x : ContextId}
    (h : w.createContext c = some (x, w')) : w'.registries = w.registries := by
  obtain ⟨cache, -, h⟩ := Option.map_eq_some_iff.1 h
  obtain ⟨-, rfl⟩ := Prod.mk.inj h
  rfl

variable [DecidableEq K] [ToString K]

/-- A request that is answered from the context leaves the registries alone. -/
theorem lookupEntry_registries (w : World K N V σ B) (x : ContextId) (context : Context K V σ B)
    (k : K) : (w.lookupEntry x context k).2.registries = w.registries := by
  rw [lookupEntry]
  split
  · rfl
  · rfl
  · rw [issuePlaceholder]
    cases context.placeholders with
    | none => rfl
    | some make => exact countOnParent_registries _ context .placeholderIssued
  · cases context.builder with
    | none => rfl
    | some b => exact countOnParent_registries _ context .builderInvocation

/-- A request within a pass leaves the registries alone. -/
theorem lookup_registries {x : ContextId} {k : K} {l : Lookup V B}
    (h : w.lookup x k = some (l, w')) : w'.registries = w.registries := by
  cases looksUp_of_lookup h with
  | refused found parent cached foreign => rfl
  | published found parent cached stored => rfl
  | @entry context _ _ found unpublished entered =>
      have hkept := w.lookupEntry_registries x context k
      rwa [entered] at hkept

variable [BEq V]

/-- Recording a value leaves the registries alone. -/
theorem record_registries {x : ContextId} {k : K} {v : V} {overwrite : Bool}
    {r : Except Violation Unit} (h : w.record x k v overwrite = some (r, w')) :
    w'.registries = w.registries := by
  cases records_of_record h <;> rfl

/-- A commit leaves the registries alone. -/
theorem commit_registries {x : ContextId} {r : Except Violation Bool}
    (h : w.commit x = some (r, w')) : w'.registries = w.registries := by
  cases r with
  | error e => rw [commit_error h]
  | ok b =>
      obtain ⟨context, c, cache, cache', -, -, -, -, -, rfl⟩ := commit_inv h
      rfl

/-- Only the requests that make a registry, or a cache of one, touch registries. -/
theorem answer_registries [DecidableEq N] {r : Request K N V σ B} {a : r.Answer}
    (h : w.answer r = some (a, w')) (hnew : ∀ template belongs, r ≠ .newRegistry template belongs)
    (hcache : ∀ id ns, r ≠ .scopedCache id ns) : w'.registries = w.registries := by
  cases r with
  | newRegistry template belongs => exact absurd rfl (hnew template belongs)
  | scopedCache id ns => exact absurd rfl (hcache id ns)
  | insert c k v | clearFailures c | resetCounters c =>
      simp only [answer, onCache, Option.map_eq_some_iff, Prod.mk.injEq] at h
      obtain ⟨cache, -, -, rfl⟩ := h
      rfl
  | record x k v overwrite => exact record_registries h
  | commit x => exact commit_registries h
  | createContext c builder placeholders =>
      simp only [answer, bind, Option.bind_eq_some_iff, Option.pure_def, Option.some.injEq,
        Prod.mk.injEq] at h
      obtain ⟨⟨x, w₁⟩, hcreate, context, -, -, rfl⟩ := h
      have hkept : w₁.registries = w.registries := createContext_registries hcreate
      exact hkept
  | published c k | recorded c k | clear x =>
      simp only [answer, Option.map_eq_some_iff, Prod.mk.injEq] at h
      obtain ⟨-, -, -, rfl⟩ := h
      rfl
  | newCache config | newContext builder placeholders | newCell | observe | setClient client =>
      obtain ⟨-, rfl⟩ := Prod.mk.inj (Option.some.inj h)
      rfl

end Kept

/-! ### Registries that are made, and their caches -/

/-- A registry that was replaced is found under its name, and the other ones are as they were. -/
theorem registry?_setRegistry (w : World K N V σ B) (r r' : RegistryId)
    (registry : Registry K N V σ B) :
    World.registry? (w.setRegistry r registry) r' =
      if r = r' then (w.registry? r).map fun _ => registry else w.registry? r' := by
  obtain ⟨i⟩ := r
  obtain ⟨j⟩ := r'
  simp only [setRegistry, registry?, Array.getElem?_setIfInBounds, RegistryId.mk.injEq]
  by_cases hij : i = j
  · subst hij
    by_cases hi : i < w.registries.size <;> simp [hi]
  · simp [hij]

variable [DecidableEq N] {r : RegistryId} {ns : N} {c : CacheId} {template : Config K V σ B}
  {belongs : Option (N → K → Bool)}

/-- The cache of a namespace is on the list, or is made and put on it. -/
theorem scopedCache_inv (h : w.scopedCache r ns = some (c, w')) :
    ∃ registry, w.registry? r = some registry ∧
      ((registry.caches.get? ns = some c ∧ w' = w) ∨
        ∃ w₁, w.newCache (registry.configFor ns) = (c, w₁) ∧
          w' = w₁.setRegistry r { registry with caches := registry.caches.insert ns c }) := by
  obtain ⟨registry, hr, h⟩ := Option.map_eq_some_iff.1 h
  refine ⟨registry, hr, ?_⟩
  split at h
  · rename_i d hd
    obtain ⟨rfl, rfl⟩ := Prod.mk.inj h
    exact Or.inl ⟨hd, rfl⟩
  · obtain ⟨rfl, rfl⟩ := Prod.mk.inj h
    exact Or.inr ⟨_, rfl, rfl⟩

/-- A new registry lists nothing. -/
theorem newRegistry_registered (h : w.newRegistry template belongs = (r, w')) :
    w'.Registered r template belongs := by
  obtain ⟨rfl, rfl⟩ := Prod.mk.inj h
  exact ⟨{ template, belongs }, (w.registry?_newRegistry template belongs _).trans (if_pos rfl),
    rfl, rfl, fun ns c hc => by simp at hc⟩

namespace Registered

/-- The other registries stay as they are. -/
theorem newRegistry (h : w.Registered r template belongs) (template' : Config K V σ B)
    (belongs' : Option (N → K → Bool)) :
    (w.newRegistry template' belongs').2.Registered r template belongs := by
  obtain ⟨registry, hr, htemplate, hbelongs, hlisted⟩ := h
  refine ⟨registry, ?_, htemplate, hbelongs, hlisted⟩
  have hlt : r.index < w.registries.size := (Array.getElem?_eq_some_iff.1 hr).1
  have hne : r ≠ (w.newRegistry template' belongs').1 := by
    rintro rfl
    exact Nat.lt_irrefl _ hlt
  rw [registry?_newRegistry, if_neg hne, hr]

/-- Caches keep the configuration that they were made with. -/
theorem grows [DecidableEq K] (h : w.Registered r template belongs)
    (hsame : w'.registries = w.registries) (hgrows : w.Grows w') :
    w'.Registered r template belongs := by
  obtain ⟨registry, hr, htemplate, hbelongs, hlisted⟩ := h
  refine ⟨registry, ?_, htemplate, hbelongs, fun ns c hc => ?_⟩
  · rw [registry?_of_registries hsame, hr]
  · obtain ⟨cache, hcache, hconfig⟩ := hlisted ns c hc
    obtain ⟨cache', hcache', hconfig'⟩ := hgrows.caches c cache hcache
    exact ⟨cache', hcache', hconfig'.trans hconfig⟩

/-- The cache of a namespace has the configuration that the registry has for it. -/
theorem cache_of_scopedCache [DecidableEq K] (h : w.Registered r template belongs)
    (hanswer : w.scopedCache r ns = some (c, w')) :
    ∃ cache, w'.cache? c = some cache ∧
      cache.config = ({ template, belongs } : Registry K N V σ B).configFor ns := by
  obtain ⟨registry, hr, rfl, rfl, hlisted⟩ := h
  obtain ⟨other, hother, hanswer⟩ := scopedCache_inv hanswer
  obtain rfl : other = registry := Option.some.inj (hother.symm.trans hr)
  rcases hanswer with ⟨hc, rfl⟩ | ⟨w₁, hnew, rfl⟩
  · exact hlisted ns c hc
  · have hmade := w.cache?_newCache (other.configFor ns) c
    rw [hnew, if_pos rfl] at hmade
    exact ⟨_, hmade, rfl⟩

/-- Every namespace has a cache, or is given one. -/
theorem answers (h : w.Registered r template belongs) (ns : N) :
    ∃ c w', w.scopedCache r ns = some (c, w') := by
  obtain ⟨registry, hr, -⟩ := h
  rw [World.scopedCache, hr]
  exact ⟨_, _, rfl⟩

/-- A cache that was made for a namespace is put on the list of a registry. -/
theorem enlist (h : w.Registered r template belongs) {r' : RegistryId} {other : Registry K N V σ B}
    (hother : w.registry? r' = some other) {cache : Cache K V σ B}
    (hcache : w.cache? c = some cache) (hconfig : cache.config = other.configFor ns) :
    (w.setRegistry r' { other with caches := other.caches.insert ns c }).Registered r template
      belongs := by
  obtain ⟨registry, hr, rfl, rfl, hlisted⟩ := h
  by_cases hsame : r' = r
  · subst hsame
    obtain rfl : other = registry := Option.some.inj (hother.symm.trans hr)
    refine ⟨{ other with caches := other.caches.insert ns c }, ?_, rfl, rfl, fun ns' d hd => ?_⟩
    · rw [registry?_setRegistry, if_pos rfl, hr, Option.map_some]
    · rw [Table.get?_insert] at hd
      split at hd
      · rename_i hns
        obtain rfl := Option.some.inj hd
        exact ⟨cache, hcache, hns ▸ hconfig⟩
      · exact hlisted ns' d hd
  · refine ⟨registry, ?_, rfl, rfl, hlisted⟩
    rw [registry?_setRegistry, if_neg hsame, hr]

/-- So is one that is made because it is asked for. -/
theorem scopedCache [DecidableEq K] (h : w.Registered r template belongs) {r' : RegistryId}
    (hanswer : w.scopedCache r' ns = some (c, w')) : w'.Registered r template belongs := by
  obtain ⟨other, hother, ⟨-, rfl⟩ | ⟨w₁, hnew, rfl⟩⟩ := scopedCache_inv hanswer
  · exact h
  · have hmade := w.cache?_newCache (other.configFor ns) c
    rw [hnew, if_pos rfl] at hmade
    obtain ⟨-, rfl⟩ := Prod.mk.inj hnew
    have hafter : (w.newCache (other.configFor ns)).2.Registered r template belongs :=
      h.grows rfl (Grows.newCache w _)
    exact hafter.enlist hother hmade rfl

variable [DecidableEq K] [BEq V] [ToString K]

/-- A registry stays what it is, whatever a routine requests. -/
theorem answer (h : w.Registered r template belongs) {q : Request K N V σ B} {a : q.Answer}
    (hanswer : w.answer q = some (a, w')) : w'.Registered r template belongs := by
  have hgrows := (answer_obeys hanswer).grows
  cases q with
  | newRegistry template' belongs' =>
      obtain ⟨-, rfl⟩ := Prod.mk.inj (Option.some.inj hanswer)
      exact h.newRegistry template' belongs'
  | scopedCache id ns => exact h.scopedCache hanswer
  | _ => exact h.grows (answer_registries hanswer (by simp) (by simp)) hgrows

end Registered

end World

/-! ### Steps -/

namespace Machine

variable [DecidableEq K] [DecidableEq N] [BEq V] [ToString K]
  {body : B → ContextId → K → Body K N V σ B} {m m' : Machine K N V σ B}

omit [DecidableEq N] [BEq V] [ToString K] in
/-- To end a claimed request leaves the registries alone. -/
theorem settle_registries {p : Pass K} {outcome : Outcome V} {receiver : Receiver K N V σ B}
    (h : m.settle p outcome receiver = some m') : m'.world.registries = m.world.registries := by
  obtain ⟨cache, -, rfl⟩ := release_of_settle h
  rfl

omit [DecidableEq N] [BEq V] in
/-- To reach for a key leaves the registries alone. -/
theorem claim_registries {c : CacheId} {k : K} {thread : ThreadId} {receiver : Receiver K N V σ B}
    (h : m.claim c k thread receiver = some m') : m'.world.registries = m.world.registries := by
  cases claims_of_claim h <;> rfl

omit [DecidableEq N] in
/-- A pass that has its value, or has failed, leaves registries alone. -/
theorem stepReply_registries {x : ContextId} {k : K} {answer : Except RequestError (Option V)}
    {asker : Asker K N V σ B} (h : m.stepReply x k answer asker = some m') :
    m'.world.registries = m.world.registries := by
  cases asker with
  | routine next =>
      obtain rfl := Option.some.inj h
      rfl
  | pass p receiver =>
      simp only [stepReply] at h
      split at h
      · simp only [bind, Option.bind_eq_some_iff] at h
        obtain ⟨⟨⟨⟩, w⟩, hremember, h⟩ := h
        exact (settle_registries h).trans (World.onCache_registries hremember)
      · exact settle_registries h
      · simp only [bind, Option.bind_eq_some_iff] at h
        obtain ⟨⟨committed, w⟩, hcommit, h⟩ := h
        have hkept := World.commit_registries hcommit
        split at h
        · exact (settle_registries h).trans hkept
        · exact (settle_registries h).trans hkept
        · simp only [Option.bind_eq_some_iff] at h
          obtain ⟨cache, -, h⟩ := h
          split at h
          · exact (settle_registries h).trans hkept
          · obtain rfl := Option.some.inj h
            exact hkept

/-- A routine that goes on leaves registries alone, unless it makes a request. -/
theorem stepRun_registries {b : Body K N V σ B} (h : m.stepRun b = some m') :
    m'.world.registries = m.world.registries ∨
      ∃ r next a, b = .perform r next ∧ m.world.answer r = some (a, m'.world) := by
  cases b with
  | done r =>
      refine Or.inl ?_
      cases hstack : m.stack with
      | nil => simp [stepRun, hstack] at h
      | cons frame rest =>
          simp only [stepRun, hstack] at h
          cases r with
          | error e =>
              obtain rfl := Option.some.inj h
              rfl
          | ok v =>
              simp only [bind, Option.bind_eq_some_iff] at h
              obtain ⟨⟨answer, w⟩, hrecord, h⟩ := h
              have hkept := World.record_registries hrecord
              cases answer <;>
                obtain rfl := Option.some.inj h <;>
                exact hkept
  | panic message =>
      refine Or.inl ?_
      cases hstack : m.stack with
      | nil => simp [stepRun, hstack] at h
      | cons frame rest =>
          simp only [stepRun, hstack] at h
          split at h
          · obtain rfl := Option.some.inj h
            rfl
          · have hkept := settle_registries h
            exact hkept
  | halt => simp [stepRun] at h
  | perform r next =>
      simp only [stepRun, bind, Option.bind_eq_some_iff] at h
      obtain ⟨⟨a, w⟩, hanswer, h⟩ := h
      obtain rfl := Option.some.inj h
      exact Or.inr ⟨r, next, a, rfl, hanswer⟩
  | build x k next =>
      obtain rfl := Option.some.inj h
      exact Or.inl rfl
  | get c k next =>
      simp only [stepRun, bind, Option.bind_eq_some_iff] at h
      obtain ⟨⟨answer, w⟩, hrequest, h⟩ := h
      have hkept := World.onCache_registries hrequest
      split at h
      · obtain rfl := Option.some.inj h
        exact Or.inl hkept
      · exact Or.inl ((claim_registries h).trans hkept)
  | race c k n next =>
      simp only [stepRun, bind, Option.bind_eq_some_iff] at h
      obtain ⟨⟨⟨outcomes, waiting⟩, w⟩, hrequest, h⟩ := h
      have hkept := World.onCache_registries hrequest
      obtain rfl := Option.some.inj h
      exact Or.inl hkept

/-- Registries change when a routine requests it, and at no other step. -/
theorem step_registries (h : m.step body = some m') :
    m'.world.registries = m.world.registries ∨
      ∃ r next a, m.focus = .run (.perform r next) ∧ m.world.answer r = some (a, m'.world) := by
  rw [step] at h
  split at h
  · rename_i b hfocus
    refine (stepRun_registries h).imp_right ?_
    rintro ⟨r, next, a, rfl, hanswer⟩
    exact ⟨r, next, a, hfocus, hanswer⟩
  · simp only [stepAsk, bind, Option.bind_eq_some_iff] at h
    obtain ⟨⟨l, w⟩, hlookup, h⟩ := h
    have hkept := World.lookup_registries hlookup
    cases l <;>
      obtain rfl := Option.some.inj h <;>
      exact Or.inl hkept
  · exact Or.inl (stepReply_registries h)
  · rcases start_of_stepAttempt h with ⟨-, h⟩ | ⟨left, cache, x, w', -, -, hcreate, rfl⟩
    · exact Or.inl (settle_registries h)
    · have hkept := World.createContext_registries hcreate
      exact Or.inl hkept
  · rename_i c k outcome receiver hfocus
    obtain rfl := Option.some.inj h
    refine Or.inl ?_
    cases receiver with
    | caller next => cases outcome <;> rfl
    | crowd waiting outcomes next => rfl
  · obtain rfl := Option.some.inj h
    exact Or.inl rfl
  · exact Or.inl (claim_registries h)

end Machine

/-- A step leaves a registry what it is. -/
theorem World.Registered.step [DecidableEq K] [DecidableEq N] [BEq V] [ToString K]
    {body : B → ContextId → K → Body K N V σ B} {m m' : Machine K N V σ B} {r : RegistryId}
    {template : Config K V σ B} {belongs : Option (N → K → Bool)}
    (hr : m.world.Registered r template belongs) (h : m.step body = some m') :
    m'.world.Registered r template belongs := by
  rcases Machine.step_registries h with hsame | ⟨q, next, a, -, hanswer⟩
  · exact hr.grows hsame (Transition.of_step h).obeys.grows
  · exact hr.answer hanswer

end DerivationCache
