import DerivationCache.Proofs.KeyCourse
import DerivationCache.Proofs.RunningPasses

/-!
# Worlds in which only passes make contexts

A context that a pass makes has a parent and a builder. As long as no routine makes contexts by
hand, these are all the contexts there are (`World.Furnished`). In such a world every request within
a pass comes to a value or to an error, and a key is pending because its builder was called for it.

## Main results

* `World.Furnished.step`: the world of a machine stays furnished.
* `World.Furnished.lookup`: what requests within a pass come to.
* `World.Furnished.callsFor`: a key becomes pending when its builder is called.
-/

namespace DerivationCache

variable {K N V σ B : Type}

namespace World

/-- Every context has a parent and a builder. -/
def Furnished (w : World K N V σ B) : Prop :=
  ∀ x context, w.context? x = some context →
    context.parent.isSome = true ∧ context.builder.isSome = true

/-- The cache can derive values. -/
def Derives (w : World K N V σ B) (c : CacheId) : Prop :=
  ∃ cache, w.cache? c = some cache ∧ cache.config.makeBuilder.isSome = true

/-- No context is made on the way from one world to the other. -/
def MakesNone (w w' : World K N V σ B) : Prop := ∀ x, w.context? x = none → w'.context? x = none

variable {w w' : World K N V σ B} {x : ContextId}

/-- As long as the contexts stay the same, none is made. -/
theorem MakesNone.of_contexts (h : w'.contexts = w.contexts) : w.MakesNone w' := fun x hx => by
  rwa [context?, h]

/-- If none is made on two ways that are joined, none is made on the whole. -/
theorem MakesNone.trans {w₁ : World K N V σ B} (h : w.MakesNone w₁) (h' : w₁.MakesNone w') :
    w.MakesNone w' := fun x hx => h' x (h x hx)

/-- To replace a context is not to make one. -/
theorem MakesNone.setContext (w : World K N V σ B) (x : ContextId) (context : Context K V σ B) :
    w.MakesNone (w.setContext x context) := fun y hy => by
  rw [context?_setContext]
  split
  · rename_i hxy
    rw [hxy, hy]
    rfl
  · exact hy

variable [DecidableEq K]

/-- Contexts stay furnished as long as no other ones are made. -/
theorem Furnished.grows (h : w.Furnished) (hgrows : w.Grows w') (hnone : w.MakesNone w') :
    w'.Furnished := by
  intro x context' hx'
  cases hx : w.context? x with
  | none => simp [hnone x hx] at hx'
  | some context =>
      obtain ⟨context₁, hx₁, hparent, hbuilder, -⟩ := hgrows.contexts x context hx
      obtain rfl := Option.some.inj (hx₁.symm.trans hx')
      rw [hparent, hbuilder]
      exact h x context hx

/-- A cache that can derive values keeps its builders. -/
theorem Derives.grows {c : CacheId} (h : w.Derives c) (hgrows : w.Grows w') : w'.Derives c := by
  obtain ⟨cache, hcache, hderives⟩ := h
  obtain ⟨cache', hcache', hconfig⟩ := hgrows.caches c cache hcache
  exact ⟨cache', hcache', by rw [hconfig, hderives]⟩

/-- A context of a cache that can derive values is furnished. -/
theorem Furnished.createContext {c : CacheId} (h : w.Furnished) (hc : w.Derives c)
    (hcreate : w.createContext c = some (x, w')) : w'.Furnished := by
  obtain ⟨cache, context, hcache, -, hx, -, hparent, hbuilder, -, hothers, -⟩ :=
    createContext_inv hcreate
  obtain ⟨cache', hcache', hderives⟩ := hc
  obtain rfl := Option.some.inj (hcache.symm.trans hcache')
  intro y context' hy
  by_cases hyx : y = x
  · subst hyx
    obtain rfl := Option.some.inj (hx.symm.trans hy)
    rw [hparent, hbuilder, Option.isSome_map]
    exact ⟨rfl, hderives⟩
  · rw [hothers y hyx] at hy
    exact h y context' hy

section Operations

variable [ToString K] {k : K}

/-- A request can miss in a cache that derives values, and in no other one. -/
theorem Misses.derives {c : CacheId} (h : w.Misses c k) : w.Derives c := by
  obtain ⟨cache, hcache, hreads⟩ := h
  cases hreads with
  | missed owns unpublished unreplayable builder => exact ⟨cache, hcache, builder⟩

/-- Within a pass, a request comes to a value or to an error, and a key that was not seen before is
marked only if its builder is called. -/
theorem Furnished.lookup (h : w.Furnished) {answer : Except RequestError (Option V)}
    (hlookup : w.lookup x k = some (.answered answer, w')) :
    answer ≠ .ok none ∧ (w' = w ∨ w.keyState x k ≠ none) := by
  cases looksUp_of_lookup hlookup with
  | refused found parent cached foreign => exact ⟨by simp, Or.inl rfl⟩
  | published found parent cached stored => exact ⟨by simp, Or.inl rfl⟩
  | @entry context _ _ found unpublished entered =>
      obtain ⟨-, hbuilder⟩ := h x context found
      obtain ⟨b, hb⟩ := Option.isSome_iff_exists.1 hbuilder
      rw [keyState_of_context? found]
      rw [lookupEntry] at entered
      split at entered
      · obtain ⟨hanswer, rfl⟩ := Prod.mk.inj entered
        obtain rfl := Lookup.answered.inj hanswer
        exact ⟨by simp, Or.inl rfl⟩
      · obtain ⟨hanswer, rfl⟩ := Prod.mk.inj entered
        obtain rfl := Lookup.answered.inj hanswer
        exact ⟨by simp, Or.inl rfl⟩
      · rename_i hpending
        refine ⟨?_, Or.inr (by simp [hpending])⟩
        rcases hissue : w.issuePlaceholder x context k with ⟨answer', w₁⟩
        rw [hissue] at entered
        obtain ⟨hanswer, -⟩ := Prod.mk.inj entered
        obtain rfl := Lookup.answered.inj hanswer
        rcases issuePlaceholder_inv found hpending hissue with ⟨-, e, rfl⟩ | ⟨p, rfl, -⟩ <;> simp
      · simp [hb] at entered

omit [DecidableEq K] [ToString K] in
/-- Counting makes no context. -/
theorem MakesNone.countOnParent (w : World K N V σ B) (context : Context K V σ B)
    (e : Metrics.Event) : w.MakesNone (w.countOnParent context e) := by
  rw [World.countOnParent]
  split
  · exact .of_contexts rfl
  · split <;> exact .of_contexts rfl

/-- A request that is answered from the context makes no other context. -/
theorem MakesNone.lookupEntry (w : World K N V σ B) (x : ContextId) (context : Context K V σ B)
    (k : K) : w.MakesNone (w.lookupEntry x context k).2 := by
  rw [World.lookupEntry]
  split
  · exact .of_contexts rfl
  · exact .of_contexts rfl
  · rw [issuePlaceholder]
    cases context.placeholders with
    | none => exact .of_contexts rfl
    | some make =>
        let w₁ : World K N V σ B :=
          { w with cells := w.cells.alloc.2, client := (make k w.cells.alloc.1 w.client).2 }
        have hmade : w.MakesNone w₁ := .of_contexts rfl
        exact (hmade.trans (.countOnParent w₁ context _)).trans (.setContext _ x _)
  · have hmarked := MakesNone.setContext w x (context.setEntry k .pending)
    cases context.builder with
    | none => exact hmarked
    | some b => exact hmarked.trans (.countOnParent _ context _)

/-- A request within a pass makes no context. -/
theorem MakesNone.lookup {l : Lookup V B} (h : w.lookup x k = some (l, w')) : w.MakesNone w' := by
  cases looksUp_of_lookup h with
  | refused found parent cached foreign => exact .of_contexts rfl
  | published found parent cached stored => exact .of_contexts rfl
  | @entry context _ _ found unpublished entered =>
      have hmade := MakesNone.lookupEntry w x context k
      rwa [entered] at hmade

/-- Recording a value makes no context. -/
theorem MakesNone.record [BEq V] {v : V} {overwrite : Bool} {r : Except Violation Unit}
    (h : w.record x k v overwrite = some (r, w')) : w.MakesNone w' := by
  cases records_of_record h with
  | refused found rejected => exact .of_contexts rfl
  | unchanged found resolved same => exact .of_contexts rfl
  | duplicate found resolved differs => exact .of_contexts rfl
  | written found accepted unresolved => exact .setContext w x _

/-- A request that is answered at once makes no context, unless it is one for a context. -/
theorem MakesNone.answer [DecidableEq N] [BEq V] {r : Request K N V σ B} {a : r.Answer}
    (h : w.answer r = some (a, w'))
    (hnew : ∀ builder placeholders, r ≠ .newContext builder placeholders)
    (hcreate : ∀ c builder placeholders, r ≠ .createContext c builder placeholders) :
    w.MakesNone w' := by
  cases r with
  | newContext builder placeholders => exact absurd rfl (hnew builder placeholders)
  | createContext c builder placeholders => exact absurd rfl (hcreate c builder placeholders)
  | record x k v overwrite => exact .record h
  | clear x =>
      simp only [World.answer, Option.map_eq_some_iff, Prod.mk.injEq] at h
      obtain ⟨context, -, -, rfl⟩ := h
      exact .setContext w x _
  | commit x =>
      cases a with
      | error e =>
          rw [commit_error h]
          exact .of_contexts rfl
      | ok published =>
          obtain ⟨context, c, cache, cache', -, -, -, -, -, rfl⟩ := commit_inv h
          exact .of_contexts rfl
  | insert c k v =>
      simp only [World.answer, onCache, Option.map_eq_some_iff, Prod.mk.injEq] at h
      obtain ⟨cache, -, -, rfl⟩ := h
      exact .of_contexts rfl
  | clearFailures c =>
      simp only [World.answer, onCache, Option.map_eq_some_iff, Prod.mk.injEq] at h
      obtain ⟨cache, -, -, rfl⟩ := h
      exact .of_contexts rfl
  | resetCounters c =>
      simp only [World.answer, onCache, Option.map_eq_some_iff, Prod.mk.injEq] at h
      obtain ⟨cache, -, -, rfl⟩ := h
      exact .of_contexts rfl
  | scopedCache r ns =>
      simp only [World.answer, World.scopedCache, Option.map_eq_some_iff] at h
      obtain ⟨registry, -, h⟩ := h
      split at h <;>
        obtain ⟨-, rfl⟩ := Prod.mk.inj h <;>
        exact .of_contexts rfl
  | published c k =>
      simp only [World.answer, Option.map_eq_some_iff, Prod.mk.injEq] at h
      obtain ⟨-, -, -, rfl⟩ := h
      exact .of_contexts rfl
  | recorded x k =>
      simp only [World.answer, Option.map_eq_some_iff, Prod.mk.injEq] at h
      obtain ⟨-, -, -, rfl⟩ := h
      exact .of_contexts rfl
  | newCache config =>
      obtain ⟨-, rfl⟩ := Prod.mk.inj (Option.some.inj h)
      exact .of_contexts rfl
  | newCell =>
      obtain ⟨-, rfl⟩ := Prod.mk.inj (Option.some.inj h)
      exact .of_contexts rfl
  | newRegistry template belongs =>
      obtain ⟨-, rfl⟩ := Prod.mk.inj (Option.some.inj h)
      exact .of_contexts rfl
  | observe =>
      obtain ⟨-, rfl⟩ := Prod.mk.inj (Option.some.inj h)
      exact .of_contexts rfl
  | setClient client =>
      obtain ⟨-, rfl⟩ := Prod.mk.inj (Option.some.inj h)
      exact .of_contexts rfl

end Operations

end World

/-! ### Steps -/

section Steps

variable [DecidableEq K] [DecidableEq N] [BEq V] [ToString K]
  {body : B → ContextId → K → Body K N V σ B} {m m' : Machine K N V σ B}

/-- Contexts are made by passes, or by hand. -/
theorem Machine.makesNone_of_step (h : m.step body = some m') (hhand : m.byHand = false)
    (hattempt : ∀ p receiver, m.focus ≠ .attempt p receiver) : m.world.MakesNone m'.world := by
  have hidles {w w' : World K N V σ B} (h : w.Idles w') : w.MakesNone w' :=
    .of_contexts h.contexts
  have hsame (w : World K N V σ B) : w.MakesNone w := .of_contexts rfl
  have hcommit {w w' : World K N V σ B} {x : ContextId} {published : Bool}
      (h : w.commit x = some (.ok published, w')) : w.MakesNone w' := by
    obtain ⟨context, c, cache, cache', -, -, -, -, -, rfl⟩ := World.commit_inv h
    exact .of_contexts rfl
  cases Transition.of_step h with
  | returnRecorded recorded => exact .record recorded
  | unwindPass message idles => exact hidles idles
  | perform r next answered =>
      refine .answer answered (fun builder placeholders hr => ?_)
        fun c builder placeholders hr => ?_
      · subst hr
        simp [byHand] at hhand
      · subst hr
        simp [byHand] at hhand
  | get idles reached => exact hidles idles
  | race idles stored => exact hidles idles
  | askAnswered answered => exact .lookup answered
  | askBuild b missed => exact .lookup missed
  | passFailed e idles => exact hidles idles
  | committed commit idles => exact (hcommit commit).trans (hidles idles)
  | conflictSettled commit stored idles => exact (hcommit commit).trans (hidles idles)
  | conflictRetried commit => exact hcommit commit
  | exhausted e idles => exact absurd rfl (hattempt _ _)
  | attempt left idles created => exact absurd rfl (hattempt _ _)
  | wakeNext idles reached => exact hidles idles
  | _ => exact hsame _

/-- The world of a machine stays furnished, if the caches in which passes are to be started can
derive values. -/
theorem World.Furnished.step (hw : m.world.Furnished) (h : m.step body = some m')
    (hhand : m.byHand = false) (hderives : ∀ p ∈ m.passes, m.world.Derives p.cache) :
    m'.world.Furnished := by
  by_cases hattempt : ∃ p receiver, m.focus = .attempt p receiver
  · obtain ⟨p, receiver, hfocus⟩ := hattempt
    obtain ⟨w, focus, stack⟩ := m
    obtain rfl : focus = .attempt p receiver := hfocus
    have hp := hderives p (List.mem_cons_self ..)
    cases Transition.of_step h with
    | exhausted e idles => exact hw.grows idles.grows (.of_contexts idles.contexts)
    | attempt left idles created =>
        exact (hw.grows idles.grows (.of_contexts idles.contexts)).createContext
          (hp.grows idles.grows) created
  · refine hw.grows (Transition.of_step h).obeys.grows (Machine.makesNone_of_step h hhand ?_)
    exact fun p receiver hfocus => hattempt ⟨p, receiver, hfocus⟩

/-- No request within a pass comes to nothing. -/
theorem World.Furnished.answered (hw : m.world.Furnished) (h : m.step body = some m')
    {x : ContextId} {k : K} {asker : Asker K N V σ B} : m'.focus ≠ .reply x k (.ok none) asker := by
  intro hfocus
  cases Transition.of_step h with
  | askAnswered answered =>
      obtain ⟨-, -, hanswer, -⟩ := Focus.reply.inj hfocus
      exact (hw.lookup answered).1 hanswer
  | get idles reached => cases reached <;> simp at hfocus
  | wakeNext idles reached => cases reached <;> simp at hfocus
  | _ => simp at hfocus

/-- A key that becomes pending has its builder called. -/
theorem World.Furnished.callsFor (hw : m.world.Furnished) (h : m.step body = some m')
    {x : ContextId} {k : K} (hbefore : m.world.keyState x k ≠ some .pending)
    (hafter : m'.world.keyState x k = some .pending) : m.CallsFor x k := by
  obtain ⟨e, hshift, hpermits, -⟩ := (Transition.of_step h).obeys.shift
  rcases hshift.state_source hafter with hold | hwrites
  · exact absurd hold hbefore
  · cases hshift with
    | mark y l unseen states cells =>
        obtain ⟨rfl, rfl⟩ : y = x ∧ l = k := by simpa [Effect.writes] using hwrites
        obtain ⟨asker, hfocus⟩ := Machine.focus_of_demand_request hpermits
        refine ⟨⟨asker, hfocus⟩, ?_⟩
        obtain ⟨w, focus, stack⟩ := m
        obtain rfl : focus = _ := hfocus
        cases Transition.of_step h with
        | askAnswered answered =>
            rcases (hw.lookup answered).2 with rfl | hseen
            · exact absurd hafter hbefore
            · exact absurd unseen hseen
        | askBuild b missed => simp [Machine.called?, missed]
    | _ => simp [Effect.writes] at hwrites

end Steps

end DerivationCache
