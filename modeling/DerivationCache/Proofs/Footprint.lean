import DerivationCache.Proofs.Awaiting
import DerivationCache.Proofs.Renaming
import DerivationCache.Proofs.Transition

/-!
# What work for one cache touches

The caches of a world share a configuration, the state of the collaborators and the numbers that are
given out to new things. All else that is changed on behalf of a cache is its own: the cache itself,
the contexts that commit into it, and the placeholder cells that are issued there. `World.Spares`
says so of a change to a world.

Collaborators are plain if they keep no state (`Config.Plain`): one builder serves all passes, and a
stand-in depends on nothing but its key and its cell. Numbers may still be used up. A `Supply` says
how the shared state counts the failures that are raised.

## Main results

* `World.Spares.trans`: what spares all else step by step spares it as a whole.
* `World.lookup_spares`, `World.record_spares`, `World.commit_spares`: whatever is done in a context
  spares all but the cache of the context.
-/

namespace DerivationCache

variable {K N V σ B : Type}

/-- How the state of the collaborators counts the failures that they raise. -/
structure Supply (σ : Type) where
  /-- The number of the next failure. -/
  next : σ → ℕ
  /-- The state once a failure is raised. -/
  advance : σ → σ
  next_advance : ∀ s, next (advance s) = next s + 1

/-! ### Plain collaborators -/

section Plain

variable [SMul Renaming V]

/-- The factory keeps no state, and what it makes for a renamed cell is the renamed stand-in. -/
structure PlaceholderFactory.Plain (f : PlaceholderFactory K V σ) : Prop where
  stateless : ∀ k h s, (f k h s).2 = s
  renames : ∀ (π : Renaming) k h s s',
    (f k (π • h) s').1 = ((f k h s).1.1, π • (f k h s).1.2)

/-- The builder and the stand-ins of a configuration depend on no state. -/
structure Config.Plain (config : Config K V σ B) : Prop where
  builder : ∀ make, config.makeBuilder = some make → ∃ b, ∀ s, make s = (b, s)
  placeholders : ∀ f, config.placeholders = some f → PlaceholderFactory.Plain f

/-- All collaborators that the world knows of are plain. -/
structure World.Plain (w : World K N V σ B) : Prop where
  caches : ∀ c cache, w.cache? c = some cache → cache.config.Plain
  contexts : ∀ x context f, w.context? x = some context → context.placeholders = some f →
    PlaceholderFactory.Plain f
  registries : ∀ r registry, w.registry? r = some registry → registry.template.Plain

/-- The contexts of a plain configuration are all made with one builder. -/
theorem World.createContext_of_plain {config : Config K V σ B} (h : config.Plain) :
    ∃ b : Option B, ∀ (w : World K N V σ B) (c : CacheId) (cache : Cache K V σ B),
      w.cache? c = some cache → cache.config = config →
      w.createContext c = some (w.newContext
        { parent := some c, builder := b, placeholders := config.placeholders }) := by
  cases hmake : config.makeBuilder with
  | none =>
      refine ⟨none, fun w c cache hcache hconfig => ?_⟩
      rw [createContext, hcache, Option.map_some, hconfig, hmake]
  | some make =>
      obtain ⟨b, hb⟩ := h.builder make hmake
      refine ⟨some b, fun w c cache hcache hconfig => ?_⟩
      rw [createContext, hcache, Option.map_some, hconfig, hmake]
      simp only [hb]

end Plain

/-! ### What a change spares -/

namespace World

variable (S : Supply σ)

/-- How many things of each kind have been made, or the next number of its kind. -/
def made (w : World K N V σ B) : Kind → ℕ
  | .cache => w.caches.size
  | .context => w.contexts.size
  | .cell => w.cells.size
  | .thread => w.threads
  | .failure => S.next w.client

section Made

variable (w : World K N V σ B)

/-- Replacing a cache makes nothing new. -/
@[simp] theorem made_setCache (c : CacheId) (cache : Cache K V σ B) :
    (w.setCache c cache).made S = w.made S := by
  funext kind
  cases kind <;> simp [made, setCache]

/-- Replacing a context makes nothing new. -/
@[simp] theorem made_setContext (x : ContextId) (context : Context K V σ B) :
    (w.setContext x context).made S = w.made S := by
  funext kind
  cases kind <;> simp [made, setContext]

/-- Counting makes nothing new. -/
@[simp] theorem made_countOnParent (context : Context K V σ B) (e : Metrics.Event) :
    (w.countOnParent context e).made S = w.made S := by
  rw [countOnParent]
  split
  · rfl
  · split
    · rfl
    · rw [made_setCache]

end Made

variable [DecidableEq K]

/-- A placeholder with this cell stands for a key in a context that commits into the target. -/
def Issued (w : World K N V σ B) (t : Option CacheId) (h : CellId) : Prop :=
  ∃ x context k p, w.context? x = some context ∧ context.parent = t ∧
    context.entries.get? k = some (.placeholderIssued p) ∧ p.cell = h

variable [SMul Renaming V]

/-- What is changed is the target, contexts that commit into it, and cells of placeholders there.
Without a target, no cache and no context is changed. -/
structure Spares (t : Option CacheId) (w w' : World K N V σ B) : Prop where
  caches : ∀ c cache, some c ≠ t → (w'.cache? c = some cache ↔ w.cache? c = some cache)
  contexts : ∀ x context, context.parent ≠ t →
    (w'.context? x = some context ↔ w.context? x = some context)
  cells : ∀ h, h.index < w.cells.size → ¬ w.Issued t h → w'.cells.get? h = w.cells.get? h
  issued : ∀ h, w'.Issued t h →
    w.Issued t h ∨ (w.cells.size ≤ h.index ∧ h.index < w'.cells.size)
  made : ∀ kind, w.made S kind ≤ w'.made S kind
  plain : w.Plain → w'.Plain

variable {S} {w w₁ w₂ : World K N V σ B} {t : Option CacheId}

omit [SMul Renaming V] in
/-- Which cells have been issued depends on the contexts alone. -/
theorem issued_congr (h : w₁.contexts = w.contexts) {cell : CellId} :
    w₁.Issued t cell ↔ w.Issued t cell := by
  simp only [Issued, context?, h]

namespace Spares

/-- Whoever does nothing spares everything. -/
theorem refl (w : World K N V σ B) : Spares S t w w where
  caches _ _ _ := Iff.rfl
  contexts _ _ _ := Iff.rfl
  cells _ _ _ := rfl
  issued _ h := Or.inl h
  made _ := le_rfl
  plain h := h

/-- What spares all but the target step by step does so as a whole. -/
theorem trans (h₁ : Spares S t w w₁) (h₂ : Spares S t w₁ w₂) : Spares S t w w₂ where
  caches c cache hc := (h₂.caches c cache hc).trans (h₁.caches c cache hc)
  contexts x context hx := (h₂.contexts x context hx).trans (h₁.contexts x context hx)
  cells h hlt hissued := by
    have hissued₁ : ¬ w₁.Issued t h := fun hi => by
      rcases h₁.issued h hi with hold | ⟨hge, -⟩
      · exact hissued hold
      · omega
    have hle : w.cells.size ≤ w₁.cells.size := h₁.made .cell
    rw [h₂.cells h (by omega) hissued₁, h₁.cells h hlt hissued]
  issued h hi := by
    have hle : w.cells.size ≤ w₁.cells.size := h₁.made .cell
    have hle₂ : w₁.cells.size ≤ w₂.cells.size := h₂.made .cell
    rcases h₂.issued h hi with hold | ⟨hge, hlt⟩
    · rcases h₁.issued h hold with hold | ⟨hge, hlt⟩
      · exact Or.inl hold
      · exact Or.inr ⟨hge, by omega⟩
    · exact Or.inr ⟨by omega, hlt⟩
  made kind := (h₁.made kind).trans (h₂.made kind)
  plain h := h₂.plain (h₁.plain h)

/-- Neither contexts nor cells are changed. -/
theorem of_eq
    (hcaches : ∀ c cache, some c ≠ t → (w₁.cache? c = some cache ↔ w.cache? c = some cache))
    (hcontexts : w₁.contexts = w.contexts)
    (hcells : w₁.cells = w.cells) (hmade : ∀ kind, w.made S kind ≤ w₁.made S kind)
    (hplain : w.Plain → w₁.Plain) : Spares S t w w₁ where
  caches := hcaches
  contexts x context _ := by rw [context?, context?, hcontexts]
  cells _ _ _ := by rw [hcells]
  issued _ h := Or.inl ((issued_congr hcontexts).1 h)
  made := hmade
  plain := hplain

/-- The target is replaced by a cache of the same configuration. -/
theorem setCache {c : CacheId} {old cache : Cache K V σ B} (h : w.cache? c = some old)
    (hconfig : cache.config = old.config) : Spares S (some c) w (w.setCache c cache) := by
  refine .of_eq (fun d cache' hd => ?_) rfl rfl (fun kind => by rw [made_setCache])
    fun hplain => ⟨fun d cache' hd => ?_, hplain.contexts, hplain.registries⟩
  · rw [cache?_setCache, if_neg fun hcd => hd (congrArg some hcd.symm)]
  · rw [cache?_setCache] at hd
    split at hd
    · rw [h, Option.map_some, Option.some.injEq] at hd
      rw [← hd, hconfig]
      exact hplain.caches c old h
    · exact hplain.caches d cache' hd

/-- So it is when something is done to it that keeps the configuration. -/
theorem onCache {α : Type} {c : CacheId} {f : Cache K V σ B → α × Cache K V σ B} {a : α}
    (h : w.onCache c f = some (a, w₁)) (hconfig : ∀ cache, (f cache).2.config = cache.config) :
    Spares S (some c) w w₁ := by
  obtain ⟨cache, hcache, h⟩ := Option.map_eq_some_iff.1 h
  obtain ⟨-, rfl⟩ := Prod.mk.inj h
  exact .setCache hcache (hconfig cache)

/-- Counting spares all but the parent of the context. -/
theorem countOnParent (w : World K N V σ B) {context : Context K V σ B}
    (hparent : context.parent = t) (e : Metrics.Event) :
    Spares S t w (w.countOnParent context e) := by
  subst hparent
  rw [World.countOnParent]
  split
  · exact .refl w
  · rename_i c hc
    split
    · exact .refl w
    · rename_i cache hcache
      rw [hc]
      exact .setCache hcache rfl

/-- A context of the target is replaced. All cells that it waits for were waited for before, or have
been made meanwhile. -/
theorem setContext (h : Spares S t w w₁) {x : ContextId} {old context : Context K V σ B}
    (hx : w₁.context? x = some old) (hold : old.parent = t) (hparent : context.parent = t)
    (hplain : w₁.Plain → ∀ f, context.placeholders = some f → PlaceholderFactory.Plain f)
    (hissued : ∀ k p, context.entries.get? k = some (.placeholderIssued p) →
      w₁.Issued t p.cell ∨ (w.cells.size ≤ p.cell.index ∧ p.cell.index < w₁.cells.size)) :
    Spares S t w (w₁.setContext x context) where
  caches := h.caches
  contexts y other hother := by
    rw [context?_setContext]
    split
    · rename_i hxy
      subst hxy
      rw [hx, Option.map_some, ← h.contexts x other hother, hx, Option.some.injEq,
        Option.some.injEq]
      exact ⟨fun he => absurd (he ▸ hparent) hother, fun he => absurd (he ▸ hold) hother⟩
    · exact h.contexts y other hother
  cells := h.cells
  issued cell := by
    rintro ⟨y, other, k, p, hy, hother, hp, rfl⟩
    have hcases : w₁.Issued t p.cell ∨
        (w.cells.size ≤ p.cell.index ∧ p.cell.index < w₁.cells.size) := by
      rw [context?_setContext] at hy
      split at hy
      · rw [hx, Option.map_some, Option.some.injEq] at hy
        exact hissued k p (hy ▸ hp)
      · exact Or.inl ⟨y, other, k, p, hy, hother, hp, rfl⟩
    rcases hcases with hi | hnew
    · exact h.issued _ hi
    · exact Or.inr hnew
  made kind := by
    rw [made_setContext]
    exact h.made kind
  plain hw := by
    have hw₁ := h.plain hw
    refine ⟨hw₁.caches, fun y other f hy hf => ?_, hw₁.registries⟩
    rw [context?_setContext] at hy
    split at hy
    · rw [hx, Option.map_some, Option.some.injEq] at hy
      exact hplain hw₁ f (hy ▸ hf)
    · exact hw₁.contexts y other f hy hf

/-- An entry is written that waits for no cell. -/
theorem setEntry (h : Spares S t w w₁) {x : ContextId} {context : Context K V σ B}
    (hx : w₁.context? x = some context) (hparent : context.parent = t) (k : K) {e : Entry V}
    (he : ∀ p, e ≠ .placeholderIssued p) :
    Spares S t w (w₁.setContext x (context.setEntry k e)) := by
  refine h.setContext hx hparent hparent (fun hw₁ f hf => hw₁.contexts x context f hx hf) ?_
  intro l p hp
  rw [Context.setEntry, Table.get?_insert] at hp
  split at hp
  · exact absurd (Option.some.inj hp) (he p)
  · exact Or.inl ⟨x, context, l, p, hx, hparent, hp, rfl⟩

/-- A cell is made. -/
theorem alloc (w : World K N V σ B) : Spares S t w { w with cells := w.cells.alloc.2 } where
  caches _ _ _ := Iff.rfl
  contexts _ _ _ := Iff.rfl
  cells h _ _ := Cells.get?_alloc w.cells h
  issued _ h := Or.inl h
  made kind := by
    cases kind with
    | cell =>
        have hsize := Cells.size_alloc w.cells
        change w.cells.size ≤ w.cells.alloc.2.size
        omega
    | _ => exact le_rfl
  plain h := ⟨h.caches, h.contexts, h.registries⟩

/-- The cell of an issued placeholder is filled. -/
theorem fill {h : CellId} (hissued : w.Issued t h) (v : V) :
    Spares S t w { w with cells := w.cells.fill h v } where
  caches _ _ _ := Iff.rfl
  contexts _ _ _ := Iff.rfl
  cells g _ hg := by
    refine Cells.get?_fill_of_ne ?_ v
    rintro rfl
    exact hg hissued
  issued _ hi := Or.inl hi
  made kind := by
    cases kind with
    | cell => exact (Cells.size_fill w.cells h v).ge
    | _ => exact le_rfl
  plain hw := ⟨hw.caches, hw.contexts, hw.registries⟩

/-- Threads are started. -/
theorem threads (h : Spares S t w w₁) {n : ℕ} (hn : w.threads ≤ n) :
    Spares S t w { w₁ with threads := n } where
  caches := h.caches
  contexts := h.contexts
  cells := h.cells
  issued := h.issued
  made kind := by
    cases kind with
    | thread => exact hn
    | _ => exact h.made _
  plain hw := ⟨(h.plain hw).caches, (h.plain hw).contexts, (h.plain hw).registries⟩

/-- A failure is raised, or nothing happens to the shared state. -/
theorem client (w : World K N V σ B) {client : σ} (h : S.next w.client ≤ S.next client) :
    Spares S t w { w with client } := by
  refine .of_eq (fun _ _ _ => Iff.rfl) rfl rfl (fun kind => ?_)
    fun hw => ⟨hw.caches, hw.contexts, hw.registries⟩
  cases kind with
  | failure => exact h
  | _ => exact le_rfl

/-- A context of the target is made. -/
theorem newContext (w : World K N V σ B) {context : Context K V σ B}
    (hparent : context.parent = t) (hentries : context.entries = .empty)
    (hplain : ∀ f, context.placeholders = some f → PlaceholderFactory.Plain f) :
    Spares S t w (w.newContext context).2 where
  caches _ _ _ := Iff.rfl
  contexts y other hother := by
    rw [context?_newContext]
    split
    · rename_i hy
      subst hy
      have hnone : w.context? (w.newContext context).1 = none := by
        simp [World.newContext, context?]
      rw [hnone, Option.some.injEq]
      exact ⟨fun he => absurd (he ▸ hparent) hother, fun he => by simp at he⟩
    · exact Iff.rfl
  cells _ _ _ := rfl
  issued cell := by
    rintro ⟨y, other, k, p, hy, hother, hp, rfl⟩
    rw [context?_newContext] at hy
    split at hy
    · obtain rfl := Option.some.inj hy
      simp [hentries] at hp
    · exact Or.inl ⟨y, other, k, p, hy, hother, hp, rfl⟩
  made kind := by
    cases kind with
    | context =>
        change w.contexts.size ≤ (w.contexts.push context).size
        simp
    | _ => exact le_rfl
  plain hw := by
    refine ⟨hw.caches, fun y other f hy hf => ?_, hw.registries⟩
    rw [context?_newContext] at hy
    split at hy
    · obtain rfl := Option.some.inj hy
      exact hplain f hf
    · exact hw.contexts y other f hy hf

end Spares

/-! ### Operations -/

omit [DecidableEq K] [SMul Renaming V] in
/-- A context with a parent is there. -/
theorem parent?_eq_some {x : ContextId} {c : CacheId} (h : w.parent? x = some c) :
    ∃ context, w.context? x = some context ∧ context.parent = some c :=
  Option.bind_eq_some_iff.1 h

variable {x : ContextId} {c : CacheId} {k : K}

/-- Making a context spares all but the cache that it is made for. -/
theorem createContext_spares (hplain : w.Plain) (h : w.createContext c = some (x, w₁)) :
    Spares S (some c) w w₁ := by
  obtain ⟨cache, hcache, -⟩ := Option.map_eq_some_iff.1 h
  have hconfig := hplain.caches c cache hcache
  obtain ⟨b, hb⟩ := createContext_of_plain (N := N) hconfig
  rw [hb w c cache hcache rfl] at h
  obtain ⟨-, rfl⟩ := Prod.mk.inj (Option.some.inj h)
  exact .newContext w rfl rfl hconfig.placeholders

section Text

variable [ToString K]

/-- Recording a value spares all but the context that it is recorded in, and its cells. -/
theorem record_spares [BEq V] (hx : w.parent? x = some c) {v : V} {overwrite : Bool}
    {r : Except Violation Unit} (h : w.record x k v overwrite = some (r, w₁)) :
    Spares S (some c) w w₁ := by
  cases records_of_record h with
  | refused found rejected => exact .refl w
  | unchanged found resolved same => exact .refl w
  | duplicate found resolved differs => exact .refl w
  | @written _ context found accepted unresolved =>
      have hparent : context.parent = some c := (parent?_of_context? found).symm.trans hx
      have hcells : Spares S (some c) w
          { w with cells := w.cells.resolve (context.entries.get? k) v } := by
        unfold Cells.resolve
        split
        · rename_i p hp
          exact .fill ⟨x, context, k, p, found, hparent, hp, rfl⟩ v
        · exact .refl w
      exact hcells.setEntry found hparent k fun p hp => by simp at hp

/-- Issuing a placeholder spares all but the context that it is issued in, and its new cell. -/
theorem issuePlaceholder_spares (hplain : w.Plain) {context : Context K V σ B}
    (hcontext : w.context? x = some context) (hparent : context.parent = t)
    {answer : Except RequestError (Option V)}
    (h : w.issuePlaceholder x context k = (answer, w₁)) : Spares S t w w₁ := by
  rw [issuePlaceholder] at h
  cases hmake : context.placeholders with
  | none =>
      rw [hmake] at h
      obtain ⟨-, rfl⟩ := Prod.mk.inj h
      exact .refl w
  | some make =>
      have hstateless := (hplain.contexts x context make hcontext hmake).stateless
      rcases hp : make k w.cells.alloc.1 w.client with ⟨⟨kind, standIn⟩, client⟩
      obtain rfl : client = w.client := by simpa [hp] using hstateless k w.cells.alloc.1 w.client
      rw [hmake] at h
      simp only [hp, Prod.mk.injEq] at h
      obtain ⟨-, rfl⟩ := h
      have hcounted := (Spares.alloc (S := S) (t := t) w).trans
        (.countOnParent _ hparent .placeholderIssued)
      have hkept : (({ w with cells := w.cells.alloc.2 } : World K N V σ B).countOnParent context
          .placeholderIssued).context? x = some context := by
        rw [context?, (countOnParent_idles _ context .placeholderIssued).contexts]
        exact hcontext
      refine hcounted.setContext hkept hparent hparent
        (fun hw f hf => hw.contexts x context f hkept hf) fun l p hl => ?_
      rw [Context.setEntry, Table.get?_insert] at hl
      split at hl
      · obtain rfl := Entry.placeholderIssued.inj (Option.some.inj hl)
        refine Or.inr ⟨le_rfl, ?_⟩
        rw [(countOnParent_idles _ context .placeholderIssued).cells, Cells.size_alloc]
        exact Nat.lt_succ_self _
      · exact Or.inl ⟨x, context, l, p, hkept, hparent, hl, rfl⟩

/-- A request within a pass spares all but the cache that the pass commits into. -/
theorem lookup_spares (hplain : w.Plain) (hx : w.parent? x = some c) {l : Lookup V B}
    (h : w.lookup x k = some (l, w₁)) : Spares S (some c) w w₁ := by
  obtain ⟨context, hcontext, hparent⟩ := parent?_eq_some hx
  simp only [lookup, hcontext, hparent, bind, Option.bind_some, Option.bind_eq_some_iff] at h
  obtain ⟨cache, -, h⟩ := h
  split at h
  · obtain ⟨-, rfl⟩ := Prod.mk.inj (Option.some.inj h)
    exact .refl w
  · obtain ⟨-, rfl⟩ := Prod.mk.inj (Option.some.inj h)
    exact .refl w
  · have hentry := Option.some.inj h
    rw [lookupEntry] at hentry
    cases hk : context.entries.get? k with
    | none =>
        have hmarked := (Spares.refl (S := S) w).setEntry hcontext hparent k
          (e := .pending) fun p hp => by simp at hp
        cases hb : context.builder with
        | none =>
            simp only [hk, hb, Prod.mk.injEq] at hentry
            obtain ⟨-, rfl⟩ := hentry
            exact hmarked
        | some b =>
            simp only [hk, hb, Prod.mk.injEq] at hentry
            obtain ⟨-, rfl⟩ := hentry
            exact hmarked.trans (.countOnParent _ hparent .builderInvocation)
    | some entry =>
        cases entry with
        | pending =>
            simp only [hk, Prod.mk.injEq] at hentry
            obtain ⟨-, rfl⟩ := hentry
            exact issuePlaceholder_spares hplain hcontext hparent rfl
        | placeholderIssued p =>
            simp only [hk, Prod.mk.injEq] at hentry
            obtain ⟨-, rfl⟩ := hentry
            exact .refl w
        | resolved v =>
            simp only [hk, Prod.mk.injEq] at hentry
            obtain ⟨-, rfl⟩ := hentry
            exact .refl w

/-- A commit spares all but the cache that the context commits into. -/
theorem commit_spares [BEq V] (hx : w.parent? x = some c) {r : Except Violation Bool}
    (h : w.commit x = some (r, w₁)) : Spares S (some c) w w₁ := by
  cases r with
  | error e =>
      rw [commit_error h]
      exact .refl w
  | ok b =>
      obtain ⟨context, d, cache, cache', hcontext, hparent, hcache, -, hpublish, rfl⟩ :=
        commit_inv h
      rw [parent?_of_context? hcontext, hparent] at hx
      obtain rfl := Option.some.inj hx
      exact .setCache hcache (Cache.publish_config hpublish)

end Text

end World

end DerivationCache
