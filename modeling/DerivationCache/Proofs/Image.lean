import DerivationCache.Proofs.Footprint

/-!
# Images of a cache

A world may be the image of what belongs to one cache in another world (`World.Image`): it has the
same cache, the same contexts that commit into it and the same placeholder cells, all of them
renamed, and nothing else. What is done to the cache can be done to its image as well, and has the
same answers but for the renaming. What is done for another cache is not seen in the image.

New things get the next number of their kind, and these numbers differ in the two worlds. A renaming
has to provide for it: it `Numbers` what is made on the way from one world to another.

## Main results

* `World.Image.apart`: what is done for another cache leaves the image alone.
* `World.Image.lookup`, `World.Image.record`, `World.Image.commit`: whatever is done in a context is
  done in its image.
-/

namespace DerivationCache

variable {K N V σ B : Type} [DecidableEq K]

/-- What is made on the way from the first world to the last one is given the numbers that come next
in the image of the first one. -/
def Renaming.Numbers (S : Supply σ) (π : Renaming) (w w' w₁ : World K N V σ B) : Prop :=
  ∀ kind j, w.made S kind + j < w₁.made S kind →
    π kind (w.made S kind + j) = w'.made S kind + j

omit [DecidableEq K] in
/-- Numbers that suit the whole way suit the first part of it. -/
theorem Renaming.Numbers.start {S : Supply σ} {π : Renaming} {w w' w₁ w₂ : World K N V σ B}
    (h : π.Numbers S w w' w₂) (hmade : ∀ kind, w₁.made S kind ≤ w₂.made S kind) :
    π.Numbers S w w' w₁ :=
  fun kind j hj => h kind j (hj.trans_le (hmade kind))

omit [DecidableEq K] in
/-- They suit the rest of it as well, if the image has kept pace in the first part. -/
theorem Renaming.Numbers.rest {S : Supply σ} {π : Renaming} {w w' w₁ w₁' w₂ : World K N V σ B}
    (h : π.Numbers S w w' w₂) (hmade : ∀ kind, w.made S kind ≤ w₁.made S kind)
    (hpaced : ∀ kind, w₁'.made S kind + w.made S kind = w'.made S kind + w₁.made S kind) :
    π.Numbers S w₁ w₁' w₂ := by
  intro kind j hj
  have hle := hmade kind
  have hpace := hpaced kind
  have hnumber := h kind (w₁.made S kind - w.made S kind + j) (by omega)
  rw [show w.made S kind + (w₁.made S kind - w.made S kind + j) = w₁.made S kind + j by omega]
    at hnumber
  omega

namespace World

variable [MulAction Renaming V]

/-- The second world holds what belongs to one cache of the first one, renamed. The cells that it
has are those of the placeholders issued for that cache. -/
structure Image (π : Renaming) (c : CacheId) (w w' : World K N V σ B) : Prop where
  main : π • ThreadId.main = ThreadId.main
  cache : ∃ cache, w.cache? c = some cache ∧ w'.cache? (π • c) = some (π • cache)
  contexts : ∀ x context, w.context? x = some context → context.parent = some c →
    w'.context? (π • x) = some (π • context)
  cells : ∀ h, (π • h).index < w'.cells.size →
    h.index < w.cells.size ∧ w'.cells.get? (π • h) = π • w.cells.get? h
  issued : ∀ t h, w.Issued t h →
    h.index < w.cells.size ∧ (t = some c ↔ (π • h).index < w'.cells.size)

/-- The same has been done to a world and to its image: they are alike again, and as many new things
were made in the one as in the other. -/
structure Mimics (S : Supply σ) (π : Renaming) (c : CacheId) (w w' w₁ w₁' : World K N V σ B) :
    Prop where
  image : w₁.Image π c w₁'
  paced : ∀ kind, w₁'.made S kind + w.made S kind = w'.made S kind + w₁.made S kind

/-- The same is done, and then the same again. -/
theorem Mimics.trans {S : Supply σ} {π : Renaming} {c : CacheId}
    {w w' w₁ w₁' w₂ w₂' : World K N V σ B} (h₁ : Mimics S π c w w' w₁ w₁')
    (h₂ : Mimics S π c w₁ w₁' w₂ w₂') : Mimics S π c w w' w₂ w₂' where
  image := h₂.image
  paced kind := by
    have hpaced₁ := h₁.paced kind
    have hpaced₂ := h₂.paced kind
    omega

section Made

variable (S : Supply σ) (w : World K N V σ B)

omit [DecidableEq K] [MulAction Renaming V]

/-- Filling a cell makes nothing. -/
theorem made_fill (cell : CellId) (v : V) :
    ({ w with cells := w.cells.fill cell v } : World K N V σ B).made S = w.made S := by
  funext kind
  cases kind with
  | cell => exact Cells.size_fill w.cells cell v
  | _ => rfl

/-- Making a cell makes one more. -/
theorem made_alloc :
    ({ w with cells := w.cells.alloc.2 } : World K N V σ B).made S .cell = w.cells.size + 1 :=
  Cells.size_alloc w.cells

end Made

namespace Image

variable {S : Supply σ} {π : Renaming} {c : CacheId} {w w' w₁ : World K N V σ B}

/-! ### Changes that are not seen -/

/-- What is done for another cache leaves the image alone, as long as no cell that is made takes
a number of the image. -/
theorem apart (h : w.Image π c w') {t : Option CacheId} (hspares : w.Spares S t w₁)
    (ht : t ≠ some c) (hfresh : ∀ i, w.cells.size ≤ i → w'.cells.size ≤ π .cell i) :
    w₁.Image π c w' where
  main := h.main
  cache := by
    obtain ⟨cache, hcache, hcache'⟩ := h.cache
    exact ⟨cache, (hspares.caches c cache (Ne.symm ht)).2 hcache, hcache'⟩
  contexts x context hx hparent :=
    h.contexts x context ((hspares.contexts x context (hparent ▸ Ne.symm ht)).1 hx) hparent
  cells cell hcell := by
    obtain ⟨hlt, hget⟩ := h.cells cell hcell
    have hle : w.cells.size ≤ w₁.cells.size := hspares.made .cell
    have hother : ¬ w.Issued t cell := fun hi => ht ((h.issued t cell hi).2.2 hcell)
    exact ⟨by omega, by rw [hget, hspares.cells cell hlt hother]⟩
  issued t' cell hi := by
    have hle : w.cells.size ≤ w₁.cells.size := hspares.made .cell
    have hold (hi : w.Issued t' cell) :
        cell.index < w₁.cells.size ∧ (t' = some c ↔ (π • cell).index < w'.cells.size) := by
      obtain ⟨hlt, hiff⟩ := h.issued t' cell hi
      exact ⟨by omega, hiff⟩
    by_cases htt : t' = t
    · subst htt
      rcases hspares.issued cell hi with hi | ⟨hge, hlt⟩
      · exact hold hi
      · have hforeign := hfresh cell.index hge
        refine ⟨hlt, iff_of_false ht ?_⟩
        rw [CellId.smul_index]
        omega
    · obtain ⟨x, context, k, p, hx, hparent, hp, rfl⟩ := hi
      have hx₀ := (hspares.contexts x context (hparent ▸ htt)).1 hx
      exact hold ⟨x, context, k, p, hx₀, hparent, hp, rfl⟩

/-! ### Changes that are made to both -/

/-- Neither contexts nor cells are changed, and the cache is not either. -/
theorem congr {w₁' : World K N V σ B} (h : w.Image π c w') (hcaches : w₁.caches = w.caches)
    (hcontexts : w₁.contexts = w.contexts) (hcells : w₁.cells = w.cells)
    (hcaches' : w₁'.caches = w'.caches) (hcontexts' : w₁'.contexts = w'.contexts)
    (hcells' : w₁'.cells = w'.cells) : w₁.Image π c w₁' where
  main := h.main
  cache := by
    simp only [cache?, hcaches, hcaches']
    exact h.cache
  contexts := by
    simp only [context?, hcontexts, hcontexts']
    exact h.contexts
  cells := by
    rw [hcells, hcells']
    exact h.cells
  issued t cell hi := by
    rw [hcells, hcells']
    exact h.issued t cell ((issued_congr hcontexts).1 hi)

/-- A cache is put back, and its image as well. -/
theorem setCache (h : w.Image π c w') (cache : Cache K V σ B) :
    (w.setCache c cache).Image π c (w'.setCache (π • c) (π • cache)) where
  main := h.main
  cache := by
    obtain ⟨old, hold, hold'⟩ := h.cache
    exact ⟨cache, by simp [hold], by simp [hold']⟩
  contexts := h.contexts
  cells := h.cells
  issued t cell hi := h.issued t cell ((issued_congr rfl).1 hi)

/-- The same is done to the cache and to its image, and is answered alike. -/
theorem onCacheWith {α β : Type} (h : w.Image π c w') (g : α → β)
    {f : Cache K V σ B → α × Cache K V σ B} (f' : Cache K V σ B → β × Cache K V σ B) {a : α}
    (hf : ∀ cache, f' (π • cache) = (g (f cache).1, π • (f cache).2))
    (hw : w.onCache c f = some (a, w₁)) :
    ∃ w₁', w'.onCache (π • c) f' = some (g a, w₁') ∧ Mimics S π c w w' w₁ w₁' := by
  obtain ⟨cache, hcache, hcache'⟩ := h.cache
  rw [World.onCache, hcache, Option.map_some] at hw
  obtain ⟨rfl, rfl⟩ := Prod.mk.inj (Option.some.inj hw)
  refine ⟨w'.setCache (π • c) (π • (f cache).2), ?_, h.setCache _, fun kind => ?_⟩
  · rw [World.onCache, hcache', Option.map_some, hf]
  · rw [made_setCache, made_setCache]

/-- So it is with an answer that no number occurs in. -/
theorem onCache {α : Type} (h : w.Image π c w') {f : Cache K V σ B → α × Cache K V σ B}
    (f' : Cache K V σ B → α × Cache K V σ B) {a : α}
    (hf : ∀ cache, f' (π • cache) = ((f cache).1, π • (f cache).2))
    (hw : w.onCache c f = some (a, w₁)) :
    ∃ w₁', w'.onCache (π • c) f' = some (a, w₁') ∧ Mimics S π c w w' w₁ w₁' :=
  h.onCacheWith id f' hf hw

/-- Counting an event on the parent, and on the image of the parent. -/
theorem countOnParent (h : w.Image π c w') {context : Context K V σ B}
    (hparent : context.parent = some c) (e : Metrics.Event) :
    (w.countOnParent context e).Image π c (w'.countOnParent (π • context) e) := by
  obtain ⟨cache, hcache, hcache'⟩ := h.cache
  have hparent' : (π • context).parent = some (π • c) := by
    rw [Context.smul_parent, hparent, Option.smul_some]
  simp only [World.countOnParent, hparent, hparent', hcache, hcache']
  exact h.setCache (cache.count e)

/-- A context of the cache is replaced. All cells that it waits for are in the image. -/
theorem setContext (h : w.Image π c w') {x : ContextId} {old context : Context K V σ B}
    (hx : w.context? x = some old) (hold : old.parent = some c) (hparent : context.parent = some c)
    (hissued : ∀ k p, context.entries.get? k = some (.placeholderIssued p) →
      p.cell.index < w.cells.size ∧ (π • p.cell).index < w'.cells.size) :
    (w.setContext x context).Image π c (w'.setContext (π • x) (π • context)) where
  main := h.main
  cache := h.cache
  contexts y other hy hother := by
    rw [context?_setContext] at hy
    rw [context?_setContext]
    split at hy
    · rename_i hxy
      subst hxy
      rw [hx, Option.map_some, Option.some.injEq] at hy
      rw [if_pos rfl, h.contexts x old hx hold, Option.map_some, hy]
    · rename_i hxy
      rw [if_neg fun hxy' => hxy (smul_left_cancel π hxy')]
      exact h.contexts y other hy hother
  cells := h.cells
  issued t cell := by
    rintro ⟨y, other, k, p, hy, hother, hp, rfl⟩
    rw [context?_setContext] at hy
    split at hy
    · rw [hx, Option.map_some, Option.some.injEq] at hy
      subst hy
      obtain ⟨hlt, hown⟩ := hissued k p hp
      exact ⟨hlt, iff_of_true (hother ▸ hparent) hown⟩
    · exact h.issued t p.cell ⟨y, other, k, p, hy, hother, hp, rfl⟩

/-- An entry is written that waits for no cell, or for one of the image. -/
theorem setEntry (h : w.Image π c w') {x : ContextId} {context : Context K V σ B}
    (hx : w.context? x = some context) (hparent : context.parent = some c) (k : K) (e : Entry V)
    (he : ∀ p, e = .placeholderIssued p →
      p.cell.index < w.cells.size ∧ (π • p.cell).index < w'.cells.size) :
    (w.setContext x (context.setEntry k e)).Image π c
      (w'.setContext (π • x) ((π • context).setEntry k (π • e))) := by
  rw [← Context.smul_setEntry]
  refine h.setContext hx hparent hparent fun l p hp => ?_
  rw [Context.setEntry, Table.get?_insert] at hp
  split at hp
  · exact he p (Option.some.inj hp)
  · obtain ⟨hlt, hiff⟩ := h.issued (some c) p.cell ⟨x, context, l, p, hx, hparent, hp, rfl⟩
    exact ⟨hlt, hiff.1 rfl⟩

/-- A cell is made. -/
theorem alloc (h : w.Image π c w') (hπ : π .cell w.cells.size = w'.cells.size) :
    ({ w with cells := w.cells.alloc.2 } : World K N V σ B).Image π c
      { w' with cells := w'.cells.alloc.2 } where
  main := h.main
  cache := h.cache
  contexts := h.contexts
  cells cell hcell := by
    simp only [Cells.size_alloc, CellId.smul_index] at hcell ⊢
    rw [Cells.get?_alloc, Cells.get?_alloc]
    by_cases hold : π .cell cell.index < w'.cells.size
    · obtain ⟨hlt, hget⟩ := h.cells cell hold
      exact ⟨by omega, hget⟩
    · have hnew : cell.index = w.cells.size := (π .cell).injective (by omega)
      refine ⟨by omega, ?_⟩
      have hnone : w.cells.get? cell = none := by
        rw [← Cells.get?_alloc_fresh w.cells]
        exact congrArg w.cells.get? (congrArg CellId.mk hnew)
      have hnone' : w'.cells.get? (π • cell) = none := by
        rw [← Cells.get?_alloc_fresh w'.cells]
        refine congrArg w'.cells.get? (congrArg CellId.mk ?_)
        rw [hnew, hπ]
      rw [hnone, hnone', Option.smul_none]
  issued t cell hi := by
    obtain ⟨hlt, hiff⟩ := h.issued t cell ((issued_congr rfl).1 hi)
    have hne : π .cell cell.index ≠ w'.cells.size := by
      rw [← hπ]
      exact fun he => absurd ((π .cell).injective he) (by omega)
    simp only [Cells.size_alloc, CellId.smul_index] at hiff ⊢
    exact ⟨by omega, by rw [hiff]; omega⟩

/-- A cell is filled. -/
theorem fill (h : w.Image π c w') (cell : CellId) (v : V) :
    ({ w with cells := w.cells.fill cell v } : World K N V σ B).Image π c
      { w' with cells := w'.cells.fill (π • cell) (π • v) } where
  main := h.main
  cache := h.cache
  contexts := h.contexts
  cells other hother := by
    simp only [Cells.size_fill] at hother ⊢
    obtain ⟨hlt, hget⟩ := h.cells other hother
    refine ⟨hlt, ?_⟩
    by_cases hsame : cell = other
    · subst hsame
      rw [Cells.get?_fill, if_pos ⟨rfl, hother⟩, Cells.get?_fill, if_pos ⟨rfl, hlt⟩, hget]
      cases w.cells.get? cell <;> rfl
    · rw [Cells.get?_fill_of_ne fun he => hsame (smul_left_cancel π he),
        Cells.get?_fill_of_ne hsame, hget]
  issued t other hi := by
    simp only [Cells.size_fill]
    exact h.issued t other ((issued_congr rfl).1 hi)

/-- A context of the cache is made. -/
theorem newContext (h : w.Image π c w') (context : Context K V σ B)
    (hπ : π .context w.contexts.size = w'.contexts.size) (hentries : context.entries = .empty) :
    (w.newContext context).2.Image π c (w'.newContext (π • context)).2 ∧
      π • (w.newContext context).1 = (w'.newContext (π • context)).1 := by
  have hid : π • (w.newContext context).1 = (w'.newContext (π • context)).1 :=
    congrArg ContextId.mk hπ
  refine ⟨⟨h.main, h.cache, fun y other hy hother => ?_, h.cells, fun t cell => ?_⟩, hid⟩
  · rw [context?_newContext] at hy
    rw [context?_newContext, ← hid]
    split at hy
    · rename_i hy₀
      rw [if_pos (congrArg (π • ·) hy₀), Option.some.inj hy]
    · rename_i hy₀
      rw [if_neg fun he => hy₀ (smul_left_cancel π he)]
      exact h.contexts y other hy hother
  · rintro ⟨y, other, k, p, hy, hother, hp, rfl⟩
    rw [context?_newContext] at hy
    split at hy
    · obtain rfl := Option.some.inj hy
      simp [hentries] at hp
    · exact h.issued t p.cell ⟨y, other, k, p, hy, hother, hp, rfl⟩

/-! ### Operations in a context -/

variable {x : ContextId} {k : K}

/-- A context of the cache is found in the image. -/
theorem parent (h : w.Image π c w') (hx : w.parent? x = some c) :
    w'.parent? (π • x) = some (π • c) := by
  obtain ⟨context, hcontext, hparent⟩ := parent?_eq_some hx
  rw [parent?_of_context? (h.contexts x context hcontext hparent), Context.smul_parent, hparent,
    Option.smul_some]

/-- A context is made in the image as well. -/
theorem createContext (h : w.Image π c w') (hplain : w.Plain)
    (hw : w.createContext c = some (x, w₁)) (hπ : π.Numbers S w w' w₁) :
    ∃ w₁', w'.createContext (π • c) = some (π • x, w₁') ∧ Mimics S π c w w' w₁ w₁' := by
  obtain ⟨cache, hcache, hcache'⟩ := h.cache
  obtain ⟨b, hb⟩ := createContext_of_plain (N := N) (hplain.caches c cache hcache)
  rw [hb w c cache hcache rfl] at hw
  obtain ⟨rfl, rfl⟩ := Prod.mk.inj (Option.some.inj hw)
  have hnumber : π .context w.contexts.size = w'.contexts.size :=
    hπ .context 0 (by simp [made])
  obtain ⟨himage, hid⟩ := h.newContext
    { parent := some c, builder := b, placeholders := cache.config.placeholders } hnumber rfl
  refine ⟨_, ?_, himage, fun kind => ?_⟩
  · rw [hb w' (π • c) (π • cache) hcache' rfl]
    exact congrArg (fun y => some (y, _)) hid.symm
  · cases kind with
    | context =>
        change (w'.contexts.push _).size + w.contexts.size =
          w'.contexts.size + (w.contexts.push _).size
        simp only [Array.size_push]
        omega
    | _ => rfl

variable [ToString K]

/-- A key is checked alike in a context and in its image. -/
theorem checkKey (h : w.Image π c w') {context : Context K V σ B}
    (hparent : context.parent = some c) (k : K) :
    w'.checkKey (π • context) k = w.checkKey context k := by
  obtain ⟨cache, hcache, hcache'⟩ := h.cache
  have hparent' : (π • context).parent = some (π • c) := by
    rw [Context.smul_parent, hparent, Option.smul_some]
  simp only [World.checkKey, hparent, hparent', hcache, hcache']
  rfl

/-- A value is recorded in the image as well. -/
theorem record [BEq V] [RenamesAlike V] (h : w.Image π c w') (hx : w.parent? x = some c) {v : V}
    {overwrite : Bool} {r : Except Violation Unit}
    (hw : w.record x k v overwrite = some (r, w₁)) :
    ∃ w₁', w'.record (π • x) k (π • v) overwrite = some (r, w₁') ∧
      Mimics S π c w w' w₁ w₁' := by
  obtain ⟨context, hcontext, hparent⟩ := parent?_eq_some hx
  have hcontext' := h.contexts x context hcontext hparent
  simp only [World.record, hcontext, bind, Option.bind_some, Option.bind_eq_some_iff] at hw
  obtain ⟨check, hcheck, hw⟩ := hw
  have hcheck' := (h.checkKey hparent k).trans hcheck
  have hsame : Mimics S π c w w' w w' := ⟨h, fun kind => rfl⟩
  simp only [World.record, hcontext', bind, Option.bind_some, hcheck', Context.record_smul]
  cases check with
  | error e =>
      obtain ⟨rfl, rfl⟩ := Prod.mk.inj (Option.some.inj hw)
      exact ⟨w', rfl, hsame⟩
  | ok u =>
      cases hrecord : context.record k v overwrite with
      | unchanged =>
          simp only [hrecord] at hw
          obtain ⟨rfl, rfl⟩ := Prod.mk.inj (Option.some.inj hw)
          exact ⟨w', rfl, hsame⟩
      | duplicate =>
          simp only [hrecord] at hw
          obtain ⟨rfl, rfl⟩ := Prod.mk.inj (Option.some.inj hw)
          exact ⟨w', rfl, hsame⟩
      | recorded written cell =>
          obtain ⟨rfl, -⟩ := Context.record_written hrecord
          simp only [hrecord] at hw
          cases cell with
          | none =>
              obtain ⟨rfl, rfl⟩ := Prod.mk.inj (Option.some.inj hw)
              refine ⟨w'.setContext (π • x) (π • context.setEntry k (.resolved v)), rfl, ?_,
                fun kind => by rw [made_setContext, made_setContext]⟩
              rw [Context.smul_setEntry]
              exact h.setEntry hcontext hparent k (.resolved v) fun p hp => by simp at hp
          | some cell =>
              obtain ⟨rfl, hw₁⟩ := Prod.mk.inj (Option.some.inj hw)
              obtain rfl : ({ w with cells := w.cells.fill cell v } : World K N V σ B).setContext x
                (context.setEntry k (.resolved v)) = w₁ := hw₁
              refine ⟨({ w' with cells := w'.cells.fill (π • cell) (π • v) } :
                World K N V σ B).setContext (π • x) (π • context.setEntry k (.resolved v)), rfl, ?_,
                fun kind => ?_⟩
              · rw [Context.smul_setEntry]
                exact (h.fill cell v).setEntry hcontext hparent k (.resolved v)
                  fun p hp => by simp at hp
              · rw [made_setContext, made_setContext, made_fill, made_fill]

/-- A placeholder is issued in the image as well. -/
theorem issuePlaceholder (h : w.Image π c w') (hplain : w.Plain) {context : Context K V σ B}
    (hcontext : w.context? x = some context) (hparent : context.parent = some c)
    {answer : Except RequestError (Option V)}
    (hw : w.issuePlaceholder x context k = (answer, w₁)) (hπ : π.Numbers S w w' w₁) :
    ∃ w₁', w'.issuePlaceholder (π • x) (π • context) k = (π • answer, w₁') ∧
      Mimics S π c w w' w₁ w₁' := by
  rw [World.issuePlaceholder] at hw
  rw [World.issuePlaceholder, Context.smul_placeholders]
  cases hmake : context.placeholders with
  | none =>
      rw [hmake] at hw
      obtain ⟨rfl, rfl⟩ := Prod.mk.inj hw
      exact ⟨w', rfl, h, fun kind => rfl⟩
  | some make =>
      have hmakes := hplain.contexts x context make hcontext hmake
      rcases hp : make k w.cells.alloc.1 w.client with ⟨⟨kind, standIn⟩, client⟩
      obtain rfl : client = w.client := by
        simpa [hp] using hmakes.stateless k w.cells.alloc.1 w.client
      rw [hmake] at hw
      simp only [hp, Prod.mk.injEq] at hw
      obtain ⟨rfl, rfl⟩ := hw
      have hnumber : π .cell w.cells.size = w'.cells.size := by
        refine hπ .cell 0 ?_
        rw [made_setContext, made_countOnParent, made_alloc]
        exact Nat.lt_succ_self _
      have hcell : π • w.cells.alloc.1 = w'.cells.alloc.1 := congrArg CellId.mk hnumber
      have hp' : make k (π • w.cells.alloc.1) w'.client = ((kind, π • standIn), w'.client) := by
        refine Prod.ext ?_ (hmakes.stateless k _ w'.client)
        rw [hmakes.renames π k w.cells.alloc.1 w.client w'.client, hp]
      have hkept : (({ w with cells := w.cells.alloc.2 } : World K N V σ B).countOnParent context
          .placeholderIssued).context? x = some context := by
        rw [context?, (countOnParent_idles _ context .placeholderIssued).contexts]
        exact hcontext
      have himage := ((h.alloc hnumber).countOnParent hparent .placeholderIssued).setEntry hkept
        hparent k (.placeholderIssued ⟨kind, standIn, w.cells.alloc.1⟩) fun p hp => by
          obtain rfl := Entry.placeholderIssued.inj hp
          rw [hcell, (countOnParent_idles _ context .placeholderIssued).cells,
            (countOnParent_idles _ (π • context) .placeholderIssued).cells, Cells.size_alloc,
            Cells.size_alloc]
          exact ⟨Nat.lt_succ_self _, Nat.lt_succ_self _⟩
      refine ⟨_, ?_, himage, fun kind' => ?_⟩
      · simp only [← hcell, hp']
        rfl
      · simp only [made_setContext, made_countOnParent]
        cases kind' with
        | cell =>
            rw [made_alloc, made_alloc]
            change w'.cells.size + 1 + w.cells.size = w'.cells.size + (w.cells.size + 1)
            omega
        | _ => rfl

end Image

/-! ### Requests within a pass -/

/-- The answer of a lookup is renamed, and a builder stays as it is. -/
instance : SMul Renaming (Lookup V B) where
  smul π
    | .answered answer => .answered (π • answer)
    | .build b => .build b

namespace Image

variable {S : Supply σ} {π : Renaming} {c : CacheId} {w w' w₁ : World K N V σ B} {x : ContextId}
  {k : K} [ToString K]

/-- A lookup that comes to the entries of a context, and one in its image. -/
theorem lookupEntry (h : w.Image π c w') (hplain : w.Plain) {context : Context K V σ B}
    (hcontext : w.context? x = some context) (hparent : context.parent = some c) {l : Lookup V B}
    (hw : w.lookupEntry x context k = (l, w₁)) (hπ : π.Numbers S w w' w₁) :
    ∃ w₁', w'.lookupEntry (π • x) (π • context) k = (π • l, w₁') ∧ Mimics S π c w w' w₁ w₁' := by
  rw [World.lookupEntry] at hw
  rw [World.lookupEntry, Context.smul_entries, Table.get?_smul]
  have hsame : Mimics S π c w w' w w' := ⟨h, fun kind => rfl⟩
  cases hk : context.entries.get? k with
  | none =>
      have hmarked := h.setEntry hcontext hparent k .pending fun p hp => by simp at hp
      rw [Option.smul_none]
      simp only [hk] at hw
      rw [Context.smul_builder]
      cases hb : context.builder with
      | none =>
          simp only [hb, Prod.mk.injEq] at hw
          obtain ⟨rfl, rfl⟩ := hw
          exact ⟨_, rfl, hmarked, fun kind => by rw [made_setContext, made_setContext]⟩
      | some b =>
          simp only [hb, Prod.mk.injEq] at hw
          obtain ⟨rfl, rfl⟩ := hw
          refine ⟨_, rfl, hmarked.countOnParent hparent .builderInvocation, fun kind => ?_⟩
          simp only [made_countOnParent, made_setContext]
  | some entry =>
      rw [Option.smul_some]
      cases entry with
      | pending =>
          rcases hp : w.issuePlaceholder x context k with ⟨answer, w₂⟩
          simp only [hk, hp, Prod.mk.injEq] at hw
          obtain ⟨rfl, rfl⟩ := hw
          obtain ⟨w₁', hissue, hmimics⟩ := h.issuePlaceholder hplain hcontext hparent hp hπ
          refine ⟨w₁', ?_, hmimics⟩
          simp only [smul_pending, hissue]
          rfl
      | placeholderIssued p =>
          simp only [hk, Prod.mk.injEq] at hw
          obtain ⟨rfl, rfl⟩ := hw
          exact ⟨w', rfl, hsame⟩
      | resolved v =>
          simp only [hk, Prod.mk.injEq] at hw
          obtain ⟨rfl, rfl⟩ := hw
          exact ⟨w', rfl, hsame⟩

/-- A request within a pass is answered in the image as well. -/
theorem lookup (h : w.Image π c w') (hplain : w.Plain) (hx : w.parent? x = some c) {l : Lookup V B}
    (hw : w.lookup x k = some (l, w₁)) (hπ : π.Numbers S w w' w₁) :
    ∃ w₁', w'.lookup (π • x) k = some (π • l, w₁') ∧ Mimics S π c w w' w₁ w₁' := by
  obtain ⟨context, hcontext, hparent⟩ := parent?_eq_some hx
  have hcontext' := h.contexts x context hcontext hparent
  have hparent' : (π • context).parent = some (π • c) := by
    rw [Context.smul_parent, hparent, Option.smul_some]
  obtain ⟨cache, hcache, hcache'⟩ := h.cache
  simp only [World.lookup, hcontext, hparent, hcache, bind, Option.bind_some] at hw
  simp only [World.lookup, hcontext', hparent', hcache', bind, Option.bind_some,
    Cache.published_smul]
  have hsame : Mimics S π c w w' w w' := ⟨h, fun kind => rfl⟩
  rcases hpublished : cache.published k with e | _ | v
  · simp only [hpublished] at hw
    obtain ⟨rfl, rfl⟩ := Prod.mk.inj (Option.some.inj hw)
    exact ⟨w', rfl, hsame⟩
  · simp only [hpublished] at hw
    obtain ⟨w₁', hentry, hmimics⟩ :=
      h.lookupEntry hplain hcontext hparent (Option.some.inj hw) hπ
    exact ⟨w₁', congrArg some hentry, hmimics⟩
  · simp only [hpublished] at hw
    obtain ⟨rfl, rfl⟩ := Prod.mk.inj (Option.some.inj hw)
    exact ⟨w', rfl, hsame⟩

/-- A context is committed in the image as well. -/
theorem commit [BEq V] [RenamesAlike V] (h : w.Image π c w') (hx : w.parent? x = some c)
    {r : Except Violation Bool} (hw : w.commit x = some (r, w₁)) :
    ∃ w₁', w'.commit (π • x) = some (r, w₁') ∧ Mimics S π c w w' w₁ w₁' := by
  obtain ⟨context, hcontext, hparent⟩ := parent?_eq_some hx
  have hcontext' := h.contexts x context hcontext hparent
  have hparent' : (π • context).parent = some (π • c) := by
    rw [Context.smul_parent, hparent, Option.smul_some]
  simp only [World.commit, hcontext, hparent, bind, Option.bind_some] at hw
  simp only [World.commit, hcontext', hparent', bind, Option.bind_some, Context.refusal_smul]
  cases hrefusal : context.refusal with
  | some e =>
      simp only [hrefusal] at hw
      obtain ⟨rfl, rfl⟩ := Prod.mk.inj (Option.some.inj hw)
      exact ⟨w', rfl, h, fun kind => rfl⟩
  | none =>
      simp only [hrefusal, Option.bind_eq_some_iff] at hw
      obtain ⟨⟨answer, w₂⟩, hpublish, hw⟩ := hw
      obtain ⟨rfl, rfl⟩ := Prod.mk.inj (Option.some.inj hw)
      obtain ⟨w₁', hpublish', hmimics⟩ := h.onCache (S := S)
        (·.publish (π • context).recorded) (fun cache => by
          rw [Context.recorded_smul]
          exact cache.publish_smul context.recorded) hpublish
      exact ⟨w₁', by simp only [hpublish', Option.bind_some]; rfl, hmimics⟩

end Image

end World

end DerivationCache
