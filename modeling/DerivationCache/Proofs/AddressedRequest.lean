import DerivationCache.Proofs.Image
import DerivationCache.Proofs.Registration

/-!
# Requests to a cache

Most requests are addressed to one cache: they name it, or a context that commits into it
(`World.target`). Such a request spares everything else, and the renamed request is answered alike
in the image of the cache. The other requests make new things or look at the world. They leave
alone what exists already.

## Main results

* `World.Image.answer`: a request to a cache is answered alike in the image.
* `World.answer_extends`: the other requests only add caches, registries and cells.
-/

namespace DerivationCache

variable {K N V σ B : Type}

/-! ### Renamed requests -/

section Requests

variable [SMul Renaming V]

/-- A renaming acts on all that a request names or brings in. -/
instance : SMul Renaming (Request K N V σ B) where
  smul π
    | .newCache config => .newCache config
    | .published c k => .published (π • c) k
    | .insert c k v => .insert (π • c) k (π • v)
    | .clearFailures c => .clearFailures (π • c)
    | .resetCounters c => .resetCounters (π • c)
    | .newContext builder placeholders => .newContext builder placeholders
    | .createContext c builder placeholders => .createContext (π • c) builder placeholders
    | .record x k v overwrite => .record (π • x) k (π • v) overwrite
    | .recorded x k => .recorded (π • x) k
    | .clear x => .clear (π • x)
    | .commit x => .commit (π • x)
    | .newCell => .newCell
    | .newRegistry template belongs => .newRegistry template belongs
    | .scopedCache r ns => .scopedCache r ns
    | .observe => .observe
    | .setClient client => .setClient client

/-- The answer to the renamed request. A world that is looked at stays as it is. -/
def Request.renameAnswer (π : Renaming) :
    (r : Request K N V σ B) → r.Answer → (π • r).Answer
  | .newCache _, c => π • c
  | .published _ _, a => π • a
  | .insert _ _ _, a => a
  | .clearFailures _, a => a
  | .resetCounters _, a => a
  | .newContext _ _, x => π • x
  | .createContext _ _ _, x => π • x
  | .record _ _ _ _, a => a
  | .recorded _ _, a => π • a
  | .clear _, a => a
  | .commit _, a => a
  | .newCell, h => π • h
  | .newRegistry _ _, r => r
  | .scopedCache _ _, c => π • c
  | .observe, w => w
  | .setClient _, a => a

/-- The request brings in plain collaborators only. It makes no context apart from the caches, and
leaves the state of the collaborators alone. -/
def Request.Plain : Request K N V σ B → Prop
  | .newCache config => config.Plain
  | .newRegistry template _ => template.Plain
  | .createContext _ _ placeholders => ∀ f, placeholders = some f → PlaceholderFactory.Plain f
  | .newContext _ _ => False
  | .setClient _ => False
  | _ => True

end Requests

/-- The cache that a request is addressed to, directly or through a context. -/
def World.target (w : World K N V σ B) : Request K N V σ B → Option CacheId
  | .published c _ => some c
  | .insert c _ _ => some c
  | .clearFailures c => some c
  | .resetCounters c => some c
  | .createContext c _ _ => some c
  | .record x _ _ _ => w.parent? x
  | .recorded x _ => w.parent? x
  | .clear x => w.parent? x
  | .commit x => w.parent? x
  | _ => none

/-! ### Requests that are addressed to a cache -/

namespace World

variable [DecidableEq K] [MulAction Renaming V] {S : Supply σ} {π : Renaming} {c : CacheId}
  {w w' w₁ : World K N V σ B} {x : ContextId} {context : Context K V σ B}

omit [MulAction Renaming V] in
/-- A context that has just been made belongs to its cache, and nothing is in it. -/
theorem createContext_context (h : w.createContext c = some (x, w₁))
    (hx : w₁.context? x = some context) : context.parent = some c ∧ context.entries = .empty := by
  obtain ⟨-, made, -, -, hmade, hentries, hparent, -⟩ := createContext_inv h
  obtain rfl := Option.some.inj (hx.symm.trans hmade)
  exact ⟨hparent, hentries⟩

/-- Clearing a context spares all but the cache that it commits into. -/
theorem clear_spares (hcontext : w.context? x = some context) (hparent : context.parent = some c) :
    w.Spares S (some c) (w.setContext x context.clear) :=
  (Spares.refl w).setContext hcontext hparent hparent
    (fun hplain f hf => hplain.contexts x context f hcontext hf)
    fun k p hp => by simp [Context.clear] at hp

/-- A context is emptied in the image as well. -/
theorem Image.clear (h : w.Image π c w') (hcontext : w.context? x = some context)
    (hparent : context.parent = some c) :
    Mimics S π c w w' (w.setContext x context.clear)
      (w'.setContext (π • x) (π • context).clear) where
  image := h.setContext hcontext hparent hparent fun k p hp => by simp [Context.clear] at hp
  paced kind := by rw [made_setContext, made_setContext]

/-- A context that has just been made is given its own builder or stand-ins. -/
theorem Image.adjust (h : w.Image π c w') (hcontext : w.context? x = some context)
    (hparent : context.parent = some c) (hentries : context.entries = .empty) (builder : Option B)
    (placeholders : Option (PlaceholderFactory K V σ)) :
    Mimics S π c w w' (w.setContext x { context with builder, placeholders })
      (w'.setContext (π • x) { π • context with builder, placeholders }) where
  image := by
    have hnone : ∀ k p, ({ context with builder, placeholders } : Context K V σ B).entries.get? k =
        some (.placeholderIssued p) → False := fun k p hp => by simp [hentries] at hp
    exact h.setContext hcontext hparent hparent fun k p hp => (hnone k p hp).elim
  paced kind := by rw [made_setContext, made_setContext]

/-- The image of a request is addressed to the image of the cache. -/
theorem Image.target (himage : w.Image π c w') {r : Request K N V σ B}
    (ht : w.target r = some c) : w'.target (π • r) = some (π • c) := by
  cases r with
  | published d k => exact congrArg (π • ·) ht
  | insert d k v => exact congrArg (π • ·) ht
  | clearFailures d => exact congrArg (π • ·) ht
  | resetCounters d => exact congrArg (π • ·) ht
  | createContext d builder placeholders => exact congrArg (π • ·) ht
  | record x k v overwrite => exact himage.parent ht
  | recorded x k => exact himage.parent ht
  | clear x => exact himage.parent ht
  | commit x => exact himage.parent ht
  | newCache config => simp [World.target] at ht
  | newContext builder placeholders => simp [World.target] at ht
  | newCell => simp [World.target] at ht
  | newRegistry template belongs => simp [World.target] at ht
  | scopedCache r ns => simp [World.target] at ht
  | observe => simp [World.target] at ht
  | setClient client => simp [World.target] at ht

variable [DecidableEq N] [BEq V] [ToString K]

omit [MulAction Renaming V] in
/-- A request finds the cache that it is addressed to, or a context of it. -/
theorem target_exists {r : Request K N V σ B} (ht : w.target r = some c) {a : r.Answer}
    (h : w.answer r = some (a, w₁)) :
    (∃ cache, w.cache? c = some cache) ∨ ∃ x, w.parent? x = some c := by
  have hfound {α : Type} {f : Cache K V σ B → α} {a : α} (h : (w.cache? c).map f = some a) :
      ∃ cache, w.cache? c = some cache :=
    (Option.map_eq_some_iff.1 h).imp fun _ h => h.1
  cases r with
  | published d k =>
      obtain rfl := Option.some.inj ht
      exact Or.inl (hfound h)
  | insert d k v =>
      obtain rfl := Option.some.inj ht
      exact Or.inl (hfound h)
  | clearFailures d =>
      obtain rfl := Option.some.inj ht
      exact Or.inl (hfound h)
  | resetCounters d =>
      obtain rfl := Option.some.inj ht
      exact Or.inl (hfound h)
  | createContext d builder placeholders =>
      obtain rfl := Option.some.inj ht
      simp only [answer, bind, Option.bind_eq_some_iff] at h
      obtain ⟨_, hcreate, -⟩ := h
      exact Or.inl (hfound hcreate)
  | record x k v overwrite => exact Or.inr ⟨x, ht⟩
  | recorded x k => exact Or.inr ⟨x, ht⟩
  | clear x => exact Or.inr ⟨x, ht⟩
  | commit x => exact Or.inr ⟨x, ht⟩
  | newCache config => simp [target] at ht
  | newContext builder placeholders => simp [target] at ht
  | newCell => simp [target] at ht
  | newRegistry template belongs => simp [target] at ht
  | scopedCache r ns => simp [target] at ht
  | observe => simp [target] at ht
  | setClient client => simp [target] at ht

/-- A request that is addressed to a cache spares all else. -/
theorem answer_spares (hplain : w.Plain) {r : Request K N V σ B} (hr : r.Plain)
    (ht : w.target r = some c) {a : r.Answer} (h : w.answer r = some (a, w₁)) :
    w.Spares S (some c) w₁ := by
  cases r with
  | published d k =>
      obtain ⟨cache, -, h⟩ := Option.map_eq_some_iff.1 h
      obtain rfl := (Prod.mk.inj h).2
      exact .refl w
  | insert d k v =>
      obtain rfl := Option.some.inj ht
      exact .onCache h fun cache => cache.insert_config k v
  | clearFailures d =>
      obtain rfl := Option.some.inj ht
      exact .onCache (f := fun cache => ((), cache.clearFailures)) h fun _ => rfl
  | resetCounters d =>
      obtain rfl := Option.some.inj ht
      exact .onCache (f := fun cache => ((), cache.resetCounters)) h fun _ => rfl
  | createContext d builder placeholders =>
      obtain rfl := Option.some.inj ht
      simp only [answer, bind, Option.bind_eq_some_iff] at h
      obtain ⟨⟨x, w₂⟩, hcreate, context, hcontext, h⟩ := h
      obtain ⟨rfl, rfl⟩ := Prod.mk.inj (Option.some.inj h)
      obtain ⟨hparent, hentries⟩ := createContext_context hcreate hcontext
      refine (createContext_spares hplain hcreate).setContext hcontext hparent hparent
        (fun hplain₂ f hf => ?_) fun k p hp => by simp [hentries] at hp
      cases placeholders with
      | none => exact hplain₂.contexts x context f hcontext hf
      | some g => exact hr f hf
  | record x k v overwrite => exact record_spares ht h
  | recorded x k =>
      obtain ⟨context, -, h⟩ := Option.map_eq_some_iff.1 h
      obtain rfl := (Prod.mk.inj h).2
      exact .refl w
  | clear x =>
      obtain ⟨context, hcontext, hparent⟩ := parent?_eq_some ht
      simp only [answer, hcontext, Option.map_some] at h
      obtain rfl := (Prod.mk.inj (Option.some.inj h)).2
      exact clear_spares hcontext hparent
  | commit x => exact commit_spares ht h
  | newCache config => simp [target] at ht
  | newContext builder placeholders => simp [target] at ht
  | newCell => simp [target] at ht
  | newRegistry template belongs => simp [target] at ht
  | scopedCache r ns => simp [target] at ht
  | observe => simp [target] at ht
  | setClient client => simp [target] at ht

/-- It is answered alike in the image of the cache. -/
theorem Image.answer [RenamesAlike V] (himage : w.Image π c w') (hplain : w.Plain)
    {r : Request K N V σ B} (ht : w.target r = some c) {a : r.Answer}
    (h : w.answer r = some (a, w₁)) (hπ : π.Numbers S w w' w₁) :
    ∃ w₁', w'.answer (π • r) = some (r.renameAnswer π a, w₁') ∧ Mimics S π c w w' w₁ w₁' := by
  cases r with
  | published d k =>
      obtain rfl := Option.some.inj ht
      obtain ⟨cache, hcache, hcache'⟩ := himage.cache
      simp only [World.answer, hcache, Option.map_some] at h
      obtain ⟨rfl, rfl⟩ := Prod.mk.inj (Option.some.inj h)
      refine ⟨w', ?_, himage, fun _ => rfl⟩
      change (w'.cache? (π • d)).map _ = _
      rw [hcache', Option.map_some, Cache.published_smul]
      rfl
  | insert d k v =>
      obtain rfl := Option.some.inj ht
      exact himage.onCache (·.insert k (π • v)) (fun cache => cache.insert_smul k v) h
  | clearFailures d =>
      obtain rfl := Option.some.inj ht
      exact himage.onCache (a := ()) (f := fun cache => ((), cache.clearFailures))
        (fun cache => ((), cache.clearFailures)) (fun _ => rfl) h
  | resetCounters d =>
      obtain rfl := Option.some.inj ht
      exact himage.onCache (a := ()) (f := fun cache => ((), cache.resetCounters))
        (fun cache => ((), cache.resetCounters)) (fun _ => rfl) h
  | createContext d builder placeholders =>
      obtain rfl := Option.some.inj ht
      simp only [World.answer, bind, Option.bind_eq_some_iff] at h
      obtain ⟨⟨x, w₂⟩, hcreate, context, hcontext, h⟩ := h
      obtain ⟨rfl, rfl⟩ := Prod.mk.inj (Option.some.inj h)
      obtain ⟨w₂', hcreate', hmimics⟩ := himage.createContext (S := S) hplain hcreate
        (hπ.start fun kind => by rw [made_setContext])
      obtain ⟨hparent, hentries⟩ := createContext_context hcreate hcontext
      have hcontext' := hmimics.image.contexts x context hcontext hparent
      refine ⟨_, ?_, hmimics.trans (hmimics.image.adjust hcontext hparent hentries
        (builder <|> context.builder) (placeholders <|> context.placeholders))⟩
      change (w'.createContext (π • d)).bind _ = _
      rw [hcreate', Option.bind_some]
      change (w₂'.context? (π • x)).bind _ = _
      rw [hcontext', Option.bind_some]
      rfl
  | record x k v overwrite => exact himage.record ht h
  | recorded x k =>
      obtain ⟨context, hcontext, hparent⟩ := parent?_eq_some ht
      have hcontext' := himage.contexts x context hcontext hparent
      simp only [World.answer, hcontext, Option.map_some] at h
      obtain ⟨rfl, rfl⟩ := Prod.mk.inj (Option.some.inj h)
      refine ⟨w', ?_, himage, fun _ => rfl⟩
      change (w'.context? (π • x)).map _ = _
      rw [hcontext', Option.map_some, Context.get_smul]
      rfl
  | clear x =>
      obtain ⟨context, hcontext, hparent⟩ := parent?_eq_some ht
      have hcontext' := himage.contexts x context hcontext hparent
      simp only [World.answer, hcontext, Option.map_some] at h
      obtain ⟨rfl, rfl⟩ := Prod.mk.inj (Option.some.inj h)
      refine ⟨w'.setContext (π • x) (π • context).clear, ?_, himage.clear hcontext hparent⟩
      change (w'.context? (π • x)).map _ = _
      rw [hcontext', Option.map_some]
      rfl
  | commit x => exact himage.commit ht h
  | newCache config => simp [World.target] at ht
  | newContext builder placeholders => simp [World.target] at ht
  | newCell => simp [World.target] at ht
  | newRegistry template belongs => simp [World.target] at ht
  | scopedCache r ns => simp [World.target] at ht
  | observe => simp [World.target] at ht
  | setClient client => simp [World.target] at ht

/-! ### Other requests -/

omit [DecidableEq N] [BEq V] [ToString K] in
/-- A new cache spares all that has been there before. -/
theorem newCache_spares (w : World K N V σ B) {config : Config K V σ B} (hconfig : config.Plain) :
    w.Spares S (some (w.newCache config).1) (w.newCache config).2 := by
  refine .of_eq (fun c cache hc => ?_) rfl rfl (fun kind => ?_) fun hplain =>
    ⟨fun c cache hc => ?_, hplain.contexts, hplain.registries⟩
  · rw [cache?_newCache, if_neg fun he => hc (congrArg some he)]
  · cases kind with
    | cache => simp [made, newCache]
    | _ => exact le_rfl
  · rw [cache?_newCache] at hc
    split at hc
    · obtain rfl := Option.some.inj hc
      exact hconfig
    · exact hplain.caches c cache hc

/-- Nothing that exists is changed but registries, and no context is made. A cache that is made has
nothing in it. -/
structure Extends (S : Supply σ) (w w₁ : World K N V σ B) : Prop where
  spares : ∃ t, w.Spares S t w₁ ∧ ∀ c, t = some c → w.cache? c = none
  contexts : w₁.contexts = w.contexts
  caches : ∀ c cache, w₁.cache? c = some cache →
    w.cache? c = some cache ∨ w.cache? c = none ∧ ∃ config, cache = .ofConfig config

namespace Extends

omit [DecidableEq N] [BEq V] [ToString K]

/-- A world is extended by whatever leaves its caches and contexts alone. -/
theorem of_caches (h : w.Spares S none w₁) (hcontexts : w₁.contexts = w.contexts)
    (hcaches : w₁.caches = w.caches) : w.Extends S w₁ where
  spares := ⟨none, h, fun c hc => by simp at hc⟩
  contexts := hcontexts
  caches c cache hc := Or.inl (by simpa only [cache?, hcaches] using hc)

/-- A world is extended by a new cache. -/
theorem newCache (w : World K N V σ B) {config : Config K V σ B} (hconfig : config.Plain) :
    w.Extends S (w.newCache config).2 where
  spares := ⟨_, newCache_spares w hconfig, fun c hc => by
    obtain rfl := Option.some.inj hc
    simp [World.newCache, cache?]⟩
  contexts := rfl
  caches c cache hc := by
    rw [cache?_newCache] at hc
    split at hc
    · rename_i he
      subst he
      obtain rfl := Option.some.inj hc
      exact Or.inr ⟨by simp [World.newCache, cache?], config, rfl⟩
    · exact Or.inl hc

/-- Only the registries differ. -/
theorem registries (h : w.Extends S w₁) {registries : Array (Registry K N V σ B)}
    (hplain : w₁.Plain → ∀ r registry,
      World.registry? { w₁ with registries } r = some registry →
      registry.template.Plain) : w.Extends S { w₁ with registries } where
  spares := by
    obtain ⟨t, hspares, ht⟩ := h.spares
    refine ⟨t, hspares.trans (.of_eq (fun _ _ _ => Iff.rfl) rfl rfl (fun kind => ?_) fun hw₁ =>
      ⟨hw₁.caches, hw₁.contexts, hplain hw₁⟩), ht⟩
    cases kind <;> exact le_rfl
  contexts := h.contexts
  caches := h.caches

end Extends

/-- A request that is addressed to no cache changes none of them. -/
theorem answer_extends (hplain : w.Plain)
    (hparents : ∀ x context, w.context? x = some context → context.parent ≠ none)
    {r : Request K N V σ B} (hr : r.Plain) (ht : w.target r = none) {a : r.Answer}
    (h : w.answer r = some (a, w₁)) : w.Extends S w₁ := by
  have hnone {x : ContextId} (hx : w.parent? x = none) : w.context? x = none := by
    cases hcontext : w.context? x with
    | none => rfl
    | some context =>
        rw [parent?_of_context? hcontext] at hx
        exact absurd hx (hparents x context hcontext)
  cases r with
  | newCache config =>
      obtain rfl := congrArg Prod.snd (Option.some.inj h)
      exact .newCache w hr
  | newRegistry template belongs =>
      obtain rfl := congrArg Prod.snd (Option.some.inj h)
      refine .registries (.of_caches (.refl w) rfl rfl) fun _ r registry hregistry => ?_
      have hfound := (w.registry?_newRegistry template belongs r).symm.trans hregistry
      split at hfound
      · obtain rfl := Option.some.inj hfound
        exact hr
      · exact hplain.registries r registry hfound
  | scopedCache r ns =>
      obtain ⟨registry, hregistry, ⟨-, rfl⟩ | ⟨w₂, hnew, rfl⟩⟩ := scopedCache_inv h
      · exact .of_caches (.refl w₁) rfl rfl
      · have htemplate := hplain.registries r registry hregistry
        have hconfig : (registry.configFor ns).Plain := by
          rw [Registry.configFor]
          cases registry.belongs with
          | none => exact htemplate
          | some belongs => exact ⟨htemplate.builder, htemplate.placeholders⟩
        obtain rfl := congrArg Prod.snd hnew
        refine .registries (.newCache w hconfig) fun hw₂ s other hother => ?_
        change World.registry? ((w.newCache _).2.setRegistry r _) s = some other at hother
        rw [registry?_setRegistry] at hother
        split at hother
        · obtain ⟨old, -, rfl⟩ := Option.map_eq_some_iff.1 hother
          exact htemplate
        · exact hw₂.registries s other hother
  | newCell =>
      obtain rfl := congrArg Prod.snd (Option.some.inj h)
      exact .of_caches (.alloc w) rfl rfl
  | observe =>
      obtain rfl := congrArg Prod.snd (Option.some.inj h)
      exact .of_caches (.refl w) rfl rfl
  | newContext builder placeholders => exact hr.elim
  | setClient client => exact hr.elim
  | record x k v overwrite => simp [answer, record, hnone ht, bind] at h
  | recorded x k => simp [answer, hnone ht] at h
  | clear x => simp [answer, hnone ht] at h
  | commit x => simp [answer, commit, hnone ht, bind] at h
  | published c k => simp [target] at ht
  | insert c k v => simp [target] at ht
  | clearFailures c => simp [target] at ht
  | resetCounters c => simp [target] at ht
  | createContext c builder placeholders => simp [target] at ht

end World

end DerivationCache
