import DerivationCache.Proofs.View

/-!
# Effects on a world

Whatever is done to a world, its contexts and cells change in one of six ways, the `Effect`s:
not at all, by a fresh cell, by clearing a context, by marking an unseen key pending, by
issuing a placeholder for a pending key, or by recording a value. `World.Shift` says what each
of them does to the state of every key and to the cells. What is true whatever the effect is
`World.Grows`: caches keep their configuration and their published values, and contexts keep
their parent, their builder and their way to make stand-ins.

Entries are only settled, and values only published, where a step is told to: `Demand` is what
it is told, and `World.Obeys` says that a change does no more than that.
-/

namespace DerivationCache

variable {K N V σ B : Type}

/-- What a step does to the contexts and cells of a world. -/
inductive Effect (K V : Type) where
  | quiet
  /-- A fresh cell is made, for no key. -/
  | newCell
  /-- All entries of a context are dropped. -/
  | clear (context : ContextId)
  /-- An unseen key is marked pending. -/
  | mark (context : ContextId) (key : K)
  /-- A placeholder is issued for a pending key. -/
  | issue (context : ContextId) (key : K) (placeholder : Placeholder V)
  /-- A value is recorded for a key. -/
  | record (context : ContextId) (key : K) (value : V)

/-- The entry that is written, if one is. -/
def Effect.writes : Effect K V → Option (ContextId × K × Entry V)
  | mark x k => some (x, k, .pending)
  | issue x k p => some (x, k, .placeholderIssued p)
  | record x k v => some (x, k, .resolved v)
  | _ => none

/-- What a step is told to do to the entries of a context or the values of a cache. -/
inductive Demand (K V : Type) where
  | nothing
  /-- A key is requested within a pass. -/
  | request (context : ContextId) (key : K)
  | record (context : ContextId) (key : K) (value : V) (overwrite : Bool)
  | clear (context : ContextId)
  | insert (cache : CacheId) (key : K) (value : V)
  | commit (context : ContextId)
  deriving DecidableEq

/-- The cells once a value is recorded for a key in this state: a placeholder that was issued
for the key receives the value. -/
def Cells.resolve (cells : Cells V) (state : Option (Entry V)) (v : V) : Cells V :=
  match state with
  | some (.placeholderIssued p) => cells.fill p.cell v
  | _ => cells

namespace World

/-- What grows when a world is worked on: nothing that is published is taken back, and nothing
that a cache or context was made with is changed. -/
structure Grows [DecidableEq K] (w w' : World K N V σ B) : Prop where
  stored : ∀ c k v, w.stored c k = some v → w'.stored c k = some v
  caches : ∀ c cache, w.cache? c = some cache →
    ∃ cache', w'.cache? c = some cache' ∧ cache'.config = cache.config
  contexts : ∀ x context, w.context? x = some context →
    ∃ context', w'.context? x = some context' ∧ context'.parent = context.parent ∧
      context'.builder = context.builder ∧ context'.placeholders = context.placeholders

/-- What an effect does to the state of every key and to the cells. -/
inductive Shift [DecidableEq K] (w w' : World K N V σ B) : Effect K V → Prop
  | quiet (states : ∀ y l, w'.keyState y l = w.keyState y l) (cells : w'.cells = w.cells) :
      Shift w w' .quiet
  | newCell (states : ∀ y l, w'.keyState y l = w.keyState y l)
      (cells : w'.cells = w.cells.alloc.2) : Shift w w' .newCell
  | clear (x : ContextId)
      (states : ∀ y l, w'.keyState y l = if y = x then none else w.keyState y l)
      (cells : w'.cells = w.cells) : Shift w w' (.clear x)
  | mark (x : ContextId) (k : K) (unseen : w.keyState x k = none)
      (states : ∀ y l, w'.keyState y l =
        if y = x ∧ l = k then some .pending else w.keyState y l)
      (cells : w'.cells = w.cells) : Shift w w' (.mark x k)
  | issue (x : ContextId) (k : K) (p : Placeholder V) (pending : w.keyState x k = some .pending)
      (fresh : p.cell = w.cells.alloc.1)
      (made : ∃ context make client, w.context? x = some context ∧
        context.placeholders = some make ∧ (make k p.cell client).1 = (p.kind, p.standIn))
      (states : ∀ y l, w'.keyState y l =
        if y = x ∧ l = k then some (.placeholderIssued p) else w.keyState y l)
      (cells : w'.cells = w.cells.alloc.2) : Shift w w' (.issue x k p)
  | record (x : ContextId) (k : K) (v : V)
      (states : ∀ y l, w'.keyState y l =
        if y = x ∧ l = k then some (.resolved v) else w.keyState y l)
      (cells : w'.cells = w.cells.resolve (w.keyState x k) v) : Shift w w' (.record x k v)

end World

/-- The effect is one that was demanded. A recorded value is replaced only by overwriting. -/
def Demand.Permits [DecidableEq K] (w : World K N V σ B) (d : Demand K V) : Effect K V → Prop
  | .quiet => True
  | .newCell => True
  | .clear x => d = .clear x
  | .mark x k => d = .request x k
  | .issue x k _ => d = .request x k
  | .record x k v => ∃ overwrite, d = .record x k v overwrite ∧
      (overwrite = false → ∀ u, w.keyState x k ≠ some (.resolved u))

namespace World

/-- A change does no more than the demand says: entries are written, contexts cleared and values
published only if that was demanded, and nothing is done for a key outside the namespace. -/
structure Obeys [DecidableEq K] (w w' : World K N V σ B) (d : Demand K V) : Prop where
  grows : w.Grows w'
  shift : ∃ e, w.Shift w' e ∧ d.Permits w e ∧
    ∀ x k s, e.writes = some (x, k, s) → ∀ c, w'.parent? x = some c → w.Owns c k
  source : ∀ c k v, w'.stored c k = some v → w.stored c k = some v ∨
    (d = .insert c k v ∧ w.Owns c k) ∨
    ∃ x, d = .commit x ∧ w.parent? x = some c ∧ w.Ready x ∧ w.keyState x k = some (.resolved v)

/-- Bookkeeping: nothing that the views show is changed. -/
structure Idles [DecidableEq K] (w w' : World K N V σ B) : Prop where
  grows : w.Grows w'
  contexts : w'.contexts = w.contexts
  cells : w'.cells = w.cells
  stored : ∀ c k, w'.stored c k = w.stored c k

/-- What stands behind a value that is given for a key within a pass: the parent has published
it, it is recorded, or it is the stand-in of the placeholder that is issued for the key. -/
inductive Gives [DecidableEq K] (w : World K N V σ B) (x : ContextId) (k : K) : V → Prop
  | published (c : CacheId) (u : V) (parent : w.parent? x = some c)
      (stored : w.stored c k = some u) : Gives w x k u
  | recorded (u : V) (state : w.keyState x k = some (.resolved u)) : Gives w x k u
  | standIn (p : Placeholder V) (state : w.keyState x k = some (.placeholderIssued p)) :
      Gives w x k p.standIn

variable [DecidableEq K]

/-! ### Growing -/

namespace Grows

/-- A world has grown out of itself. -/
theorem refl (w : World K N V σ B) : w.Grows w where
  stored _ _ _ h := h
  caches _ cache h := ⟨cache, h, rfl⟩
  contexts _ context h := ⟨context, h, rfl, rfl, rfl⟩

/-- Growing in two steps. -/
theorem trans {w₁ w₂ w₃ : World K N V σ B} (h₁ : w₁.Grows w₂) (h₂ : w₂.Grows w₃) :
    w₁.Grows w₃ where
  stored c k v h := h₂.stored c k v (h₁.stored c k v h)
  caches c cache h := by
    obtain ⟨cache₂, hc₂, he₂⟩ := h₁.caches c cache h
    obtain ⟨cache₃, hc₃, he₃⟩ := h₂.caches c cache₂ hc₂
    exact ⟨cache₃, hc₃, he₃.trans he₂⟩
  contexts x context h := by
    obtain ⟨context₂, hx₂, hp₂, hb₂, hm₂⟩ := h₁.contexts x context h
    obtain ⟨context₃, hx₃, hp₃, hb₃, hm₃⟩ := h₂.contexts x context₂ hx₂
    exact ⟨context₃, hx₃, hp₃.trans hp₂, hb₃.trans hb₂, hm₃.trans hm₂⟩

/-- Worlds with the same caches and contexts. -/
theorem of_eq {w w' : World K N V σ B} (hc : w'.caches = w.caches)
    (hx : w'.contexts = w.contexts) : w.Grows w' where
  stored c k v h := by simpa [World.stored, cache?, hc] using h
  caches c cache h := ⟨cache, by simpa [cache?, hc] using h, rfl⟩
  contexts x context h := ⟨context, by simpa [context?, hx] using h, rfl, rfl, rfl⟩

/-- A cache is replaced by one of the same configuration that has kept its published values. -/
theorem setCache {w : World K N V σ B} {c : CacheId} {old cache : Cache K V σ B}
    (h : w.cache? c = some old) (hconfig : cache.config = old.config)
    (hstore : ∀ k v, old.store.get? k = some v → cache.store.get? k = some v) :
    w.Grows (w.setCache c cache) where
  stored d k v hv := by
    rw [stored_setCache h]
    by_cases hcd : c = d
    · subst hcd
      rw [stored_of_cache? h] at hv
      rw [if_pos rfl, hstore k v hv]
    · rw [if_neg hcd, hv]
  caches d cache' hd := by
    by_cases hcd : c = d
    · subst hcd
      obtain rfl : old = cache' := Option.some.inj (h.symm.trans hd)
      exact ⟨cache, by simp [h], hconfig⟩
    · exact ⟨cache', by simp [hcd, hd], rfl⟩
  contexts x context hx := ⟨context, hx, rfl, rfl, rfl⟩

/-- A context is replaced by one that was made in the same way. -/
theorem setContext {w : World K N V σ B} {x : ContextId} {old context : Context K V σ B}
    (h : w.context? x = some old) (hparent : context.parent = old.parent)
    (hbuilder : context.builder = old.builder)
    (hplaceholders : context.placeholders = old.placeholders) :
    w.Grows (w.setContext x context) where
  stored _ _ _ hv := hv
  caches _ cache hc := ⟨cache, hc, rfl⟩
  contexts y context' hy := by
    by_cases hxy : x = y
    · subst hxy
      obtain rfl : old = context' := Option.some.inj (h.symm.trans hy)
      exact ⟨context, by simp [h], hparent, hbuilder, hplaceholders⟩
    · exact ⟨context', by simp [hxy, hy], rfl, rfl, rfl⟩

/-- A new cache takes nothing away. -/
theorem newCache (w : World K N V σ B) (config : Config K V σ B) :
    w.Grows (w.newCache config).2 where
  stored c k v hv := by
    cases hc : w.cache? c with
    | none => simp [World.stored, hc] at hv
    | some cache =>
        have hne : c ≠ (w.newCache config).1 := by
          rintro rfl
          simp [World.newCache, cache?] at hc
        rw [World.stored, cache?_newCache, if_neg hne]
        exact hv
  caches c cache hc := by
    have hne : c ≠ (w.newCache config).1 := by
      rintro rfl
      simp [World.newCache, cache?] at hc
    exact ⟨cache, by rw [cache?_newCache, if_neg hne, hc], rfl⟩
  contexts _ context hx := ⟨context, hx, rfl, rfl, rfl⟩

/-- Neither does a new context. -/
theorem newContext (w : World K N V σ B) (context : Context K V σ B) :
    w.Grows (w.newContext context).2 where
  stored _ _ _ hv := hv
  caches _ cache hc := ⟨cache, hc, rfl⟩
  contexts x old hx := by
    have hne : x ≠ (w.newContext context).1 := by
      rintro rfl
      simp [World.newContext, context?] at hx
    exact ⟨old, by rw [context?_newContext, if_neg hne, hx], rfl, rfl, rfl⟩

/-- A context keeps its parent. -/
theorem parent_eq {w w' : World K N V σ B} (h : w.Grows w') {x : ContextId}
    {context : Context K V σ B} (hx : w.context? x = some context) :
    w'.parent? x = w.parent? x := by
  obtain ⟨context', hx', hparent, -, -⟩ := h.contexts x context hx
  rw [parent?_of_context? hx', parent?_of_context? hx, hparent]

/-- A context that has a parent keeps it. -/
theorem parent {w w' : World K N V σ B} (h : w.Grows w') {x : ContextId} {c : CacheId}
    (hc : w.parent? x = some c) : w'.parent? x = some c := by
  cases hx : w.context? x with
  | none => simp [World.parent?, hx] at hc
  | some context => rw [h.parent_eq hx, hc]

/-- A key stays within the namespace of a cache. -/
theorem owns {w w' : World K N V σ B} (h : w.Grows w') {c : CacheId} {k : K}
    (hk : w.Owns c k) : w'.Owns c k := by
  obtain ⟨cache, hcache, hk⟩ := hk
  obtain ⟨cache', hcache', hconfig⟩ := h.caches c cache hcache
  exact ⟨cache', hcache', by rw [Cache.owns, hconfig]; exact hk⟩

end Grows

/-- Bookkeeping on a cache that leaves its configuration and store alone. -/
theorem grows_setCache_of_store {w : World K N V σ B} {c : CacheId} {old cache : Cache K V σ B}
    (h : w.cache? c = some old) (hconfig : cache.config = old.config)
    (hstore : cache.store = old.store) : w.Grows (w.setCache c cache) :=
  Grows.setCache h hconfig fun k v hv => by rw [hstore, hv]

/-! ### Bookkeeping -/

/-- The key states of a world depend on its contexts alone. -/
theorem keyState_congr {w w' : World K N V σ B} (h : w'.contexts = w.contexts) (y : ContextId)
    (l : K) : w'.keyState y l = w.keyState y l := by
  rw [keyState, keyState, context?, context?, h]

omit [DecidableEq K] in
/-- The parents in a world depend on its contexts alone. -/
theorem parent?_congr {w w' : World K N V σ B} (h : w'.contexts = w.contexts) (y : ContextId) :
    w'.parent? y = w.parent? y := by
  rw [parent?, parent?, context?, context?, h]

/-- A shift does not look at anything but the contexts and the cells. -/
theorem Shift.congr {w w₁ w₂ : World K N V σ B} {e : Effect K V} (h : w.Shift w₁ e)
    (hcontexts : w₂.contexts = w₁.contexts) (hcells : w₂.cells = w₁.cells) : w.Shift w₂ e := by
  have hstates := keyState_congr hcontexts
  cases h with
  | quiet states cells =>
      exact .quiet (fun y l => by rw [hstates, states]) (hcells.trans cells)
  | newCell states cells =>
      exact .newCell (fun y l => by rw [hstates, states]) (hcells.trans cells)
  | clear x states cells =>
      exact .clear x (fun y l => by rw [hstates, states]) (hcells.trans cells)
  | mark x k unseen states cells =>
      exact .mark x k unseen (fun y l => by rw [hstates, states]) (hcells.trans cells)
  | issue x k p pending fresh made states cells =>
      exact .issue x k p pending fresh made (fun y l => by rw [hstates, states])
        (hcells.trans cells)
  | record x k v states cells =>
      exact .record x k v (fun y l => by rw [hstates, states]) (hcells.trans cells)

/-- An entry was there before, or is written now. -/
theorem Shift.state_source {w w' : World K N V σ B} {e : Effect K V} (h : w.Shift w' e)
    {y : ContextId} {l : K} {s : Entry V} (hs : w'.keyState y l = some s) :
    w.keyState y l = some s ∨ e.writes = some (y, l, s) := by
  have hwrite {x : ContextId} {k : K} {s' : Entry V} (states : ∀ y l, w'.keyState y l =
      if y = x ∧ l = k then some s' else w.keyState y l) :
      w.keyState y l = some s ∨ some (x, k, s') = some (y, l, s) := by
    rw [states] at hs
    split at hs
    · rename_i hxy
      obtain ⟨rfl, rfl⟩ := hxy
      exact Or.inr (by rw [Option.some.inj hs])
    · exact Or.inl hs
  cases h with
  | quiet states cells => exact Or.inl (by rw [← states, hs])
  | newCell states cells => exact Or.inl (by rw [← states, hs])
  | clear x states cells =>
      rw [states] at hs
      split at hs
      · simp at hs
      · exact Or.inl hs
  | mark x k unseen states cells => exact hwrite states
  | issue x k p pending fresh made states cells => exact hwrite states
  | record x k v states cells => exact hwrite states

/-- A recorded value was there before, or is recorded now. -/
theorem Shift.recorded_source {w w' : World K N V σ B} {e : Effect K V} (h : w.Shift w' e)
    {y : ContextId} {l : K} {v : V} (hv : w'.keyState y l = some (.resolved v)) :
    w.keyState y l = some (.resolved v) ∨ e = .record y l v := by
  rcases h.state_source hv with hv | hwrites
  · exact Or.inl hv
  · cases e with
    | record x k u =>
        obtain ⟨rfl, rfl, rfl⟩ : x = y ∧ k = l ∧ u = v := by
          simpa [Effect.writes] using hwrites
        exact Or.inr rfl
    | _ => simp [Effect.writes] at hwrites

/-- A placeholder was there before, or is issued now. -/
theorem Shift.issued_source {w w' : World K N V σ B} {e : Effect K V} (h : w.Shift w' e)
    {y : ContextId} {l : K} {p : Placeholder V}
    (hp : w'.keyState y l = some (.placeholderIssued p)) :
    w.keyState y l = some (.placeholderIssued p) ∨ e = .issue y l p := by
  rcases h.state_source hp with hp | hwrites
  · exact Or.inl hp
  · cases e with
    | issue x k q =>
        obtain ⟨rfl, rfl, rfl⟩ : x = y ∧ k = l ∧ q = p := by
          simpa [Effect.writes] using hwrites
        exact Or.inr rfl
    | _ => simp [Effect.writes] at hwrites

/-- An entry stays until another one is written for the key, or until the context is cleared. -/
theorem Shift.state_lasts {w w' : World K N V σ B} {e : Effect K V} (h : w.Shift w' e)
    {y : ContextId} {l : K} {s : Entry V} (hs : w.keyState y l = some s) :
    w'.keyState y l = some s ∨
      (∃ s', e.writes = some (y, l, s') ∧ w'.keyState y l = some s') ∨ e = .clear y := by
  have hwrite {x : ContextId} {k : K} {s' : Entry V} (states : ∀ y l, w'.keyState y l =
      if y = x ∧ l = k then some s' else w.keyState y l) :
      w'.keyState y l = some s ∨
        ∃ t, some (x, k, s') = some (y, l, t) ∧ w'.keyState y l = some t := by
    rw [states]
    split
    · rename_i hxy
      obtain ⟨rfl, rfl⟩ := hxy
      exact Or.inr ⟨s', rfl, rfl⟩
    · exact Or.inl hs
  cases h with
  | quiet states cells => exact Or.inl (by rw [states, hs])
  | newCell states cells => exact Or.inl (by rw [states, hs])
  | clear x states cells =>
      by_cases hyx : y = x
      · exact Or.inr (Or.inr (by rw [hyx]))
      · exact Or.inl (by rw [states, if_neg hyx, hs])
  | mark x k unseen states cells => exact (hwrite states).imp_right Or.inl
  | issue x k p pending fresh made states cells => exact (hwrite states).imp_right Or.inl
  | record x k v states cells => exact (hwrite states).imp_right Or.inl

/-- What an entry that has a placeholder or a value becomes: it is kept, or a value is recorded
in its place, or the context is cleared. -/
theorem Shift.settled_lasts {w w' : World K N V σ B} {e : Effect K V} (h : w.Shift w' e)
    {y : ContextId} {l : K} {s : Entry V} (hs : w.keyState y l = some s)
    (hpending : s ≠ .pending) :
    w'.keyState y l = some s ∨
      (∃ v, e = .record y l v ∧ w'.keyState y l = some (.resolved v)) ∨ e = .clear y := by
  rcases h.state_lasts hs with hsame | ⟨s', hwrites, hs'⟩ | hclear
  · exact Or.inl hsame
  · cases h with
    | mark x k unseen states cells =>
        obtain ⟨rfl, rfl, rfl⟩ : x = y ∧ k = l ∧ .pending = s' := by
          simpa [Effect.writes] using hwrites
        simp [hs] at unseen
    | issue x k p pending fresh made states cells =>
        obtain ⟨rfl, rfl, -⟩ : x = y ∧ k = l ∧ .placeholderIssued p = s' := by
          simpa [Effect.writes] using hwrites
        rw [hs] at pending
        exact absurd (Option.some.inj pending) hpending
    | record x k v states cells =>
        obtain ⟨rfl, rfl, rfl⟩ : x = y ∧ k = l ∧ .resolved v = s' := by
          simpa [Effect.writes] using hwrites
        exact Or.inr (Or.inl ⟨v, rfl, hs'⟩)
    | _ => simp [Effect.writes] at hwrites
  · exact Or.inr (Or.inr hclear)

/-- A change without effect that publishes nothing obeys every demand. -/
theorem Obeys.of_quiet {w w' : World K N V σ B} (hgrows : w.Grows w') (hshift : w.Shift w' .quiet)
    (hstored : ∀ c k, w'.stored c k = w.stored c k) (d : Demand K V) : w.Obeys w' d where
  grows := hgrows
  shift := ⟨.quiet, hshift, trivial, fun _ _ _ hwrites => by simp [Effect.writes] at hwrites⟩
  source c k v hv := Or.inl (by rw [← hstored, hv])

/-- A change that writes one entry, of a key in the namespace, and publishes nothing. -/
theorem Obeys.of_write {w w' : World K N V σ B} {d : Demand K V} {e : Effect K V}
    {x : ContextId} {k : K} {s : Entry V} (hgrows : w.Grows w') (hshift : w.Shift w' e)
    (hpermits : d.Permits w e) (hstored : ∀ c l, w'.stored c l = w.stored c l)
    (hwrites : e.writes = some (x, k, s)) (howns : ∀ c, w'.parent? x = some c → w.Owns c k) :
    w.Obeys w' d := by
  refine ⟨hgrows, ⟨e, hshift, hpermits, fun y l s' he => ?_⟩,
    fun c l v hv => Or.inl (by rw [← hstored, hv])⟩
  rw [hwrites] at he
  obtain ⟨rfl, rfl, -⟩ : x = y ∧ k = l ∧ s = s' := by simpa using he
  exact howns

/-- Only the caches, contexts and cells matter for what a change does. -/
theorem Obeys.congr {w w₁ w₂ : World K N V σ B} {d : Demand K V} (h : w.Obeys w₁ d)
    (hgrows : w₁.Grows w₂) (hstored : ∀ c k, w₂.stored c k = w₁.stored c k)
    (hcontexts : w₂.contexts = w₁.contexts) (hcells : w₂.cells = w₁.cells) : w.Obeys w₂ d where
  grows := h.grows.trans hgrows
  shift := by
    obtain ⟨e, hshift, hpermits, howns⟩ := h.shift
    refine ⟨e, hshift.congr hcontexts hcells, hpermits, fun x k s hwrites => ?_⟩
    rw [parent?_congr hcontexts]
    exact howns x k s hwrites
  source c k v hv := h.source c k v (by rw [← hstored c k, hv])

/-- What stands behind a value stays there as long as the state of the key does. -/
theorem Gives.grows {w w' : World K N V σ B} {x : ContextId} {k : K} {u : V}
    (h : w.Gives x k u) (hgrows : w.Grows w') (hstate : w'.keyState x k = w.keyState x k) :
    w'.Gives x k u := by
  cases h with
  | published c u parent stored =>
      exact .published c u (hgrows.parent parent) (hgrows.stored c k u stored)
  | recorded u state => exact .recorded u (hstate.trans state)
  | standIn p state => exact .standIn p (hstate.trans state)

namespace Idles

/-- Nothing happening is bookkeeping. -/
theorem refl (w : World K N V σ B) : w.Idles w :=
  ⟨Grows.refl w, rfl, rfl, fun _ _ => rfl⟩

/-- Bookkeeping done twice. -/
theorem trans {w₁ w₂ w₃ : World K N V σ B} (h₁ : w₁.Idles w₂) (h₂ : w₂.Idles w₃) :
    w₁.Idles w₃ where
  grows := h₁.grows.trans h₂.grows
  contexts := h₂.contexts.trans h₁.contexts
  cells := h₂.cells.trans h₁.cells
  stored c k := (h₂.stored c k).trans (h₁.stored c k)

/-- Changing the state that the collaborators share. -/
theorem setClient (w : World K N V σ B) (client : σ) : w.Idles { w with client } :=
  ⟨Grows.of_eq rfl rfl, rfl, rfl, fun _ _ => rfl⟩

/-- Bookkeeping on a cache that leaves its configuration and store alone. -/
theorem setCache {w : World K N V σ B} {c : CacheId} {old cache : Cache K V σ B}
    (h : w.cache? c = some old) (hconfig : cache.config = old.config)
    (hstore : cache.store = old.store) : w.Idles (w.setCache c cache) :=
  ⟨grows_setCache_of_store h hconfig hstore, rfl, rfl, stored_setCache_of_store h hstore⟩

/-- Bookkeeping is the quiet shift. -/
theorem shift {w w' : World K N V σ B} (h : w.Idles w') : w.Shift w' .quiet :=
  Shift.quiet (keyState_congr h.contexts) h.cells

/-- Bookkeeping obeys every demand. -/
theorem obeys {w w' : World K N V σ B} (h : w.Idles w') (d : Demand K V) : w.Obeys w' d :=
  Obeys.of_quiet h.grows h.shift h.stored d

/-- Bookkeeping before a change that has no effect. -/
theorem shift_trans {w₁ w₂ w₃ : World K N V σ B} (h₁ : w₁.Idles w₂) (h₂ : w₂.Shift w₃ .quiet) :
    w₁.Shift w₃ .quiet := by
  cases h₂ with
  | quiet states cells =>
      exact Shift.quiet (fun y l => by rw [states, keyState_congr h₁.contexts])
        (cells.trans h₁.cells)

end Idles

/-- Bookkeeping after a change. -/
theorem Obeys.idles {w₁ w₂ w₃ : World K N V σ B} {d : Demand K V} (h : w₁.Obeys w₂ d)
    (hidles : w₂.Idles w₃) : w₁.Obeys w₃ d :=
  h.congr hidles.grows hidles.stored hidles.contexts hidles.cells

end World

end DerivationCache
