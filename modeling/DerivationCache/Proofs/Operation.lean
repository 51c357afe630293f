import DerivationCache.Proofs.Effect

/-!
# What the operations do

One lemma for each operation on worlds says all that it does: how it ends, and which effect it
has.

## Main results

* `World.records_of_record`, `World.looksUp_of_lookup`: the ways a recording and a request within
  a pass can end. What an operation leaves alone is read off these, here and in later modules.
* `World.lookup_inv`: a request within a pass is answered with a value only if something stands
  behind it, and calls the builder only for a key that was not seen before.
* `World.answer_obeys`: whatever a routine requests, the world does no more than the request
  demands.
-/

namespace DerivationCache

variable {K N V σ B : Type}

/-- What a request tells the world to do. -/
def Request.demand : Request K N V σ B → Demand K V
  | .record x k v overwrite => .record x k v overwrite
  | .clear x => .clear x
  | .insert c k v => .insert c k v
  | .commit x => .commit x
  | _ => .nothing

/-! ### Recording in a context -/

namespace Context

variable [DecidableEq K] [BEq V]

/-- Recording is turned down only where there is a value that was not to be replaced. It is a
duplicate if the two values differ. -/
theorem record_kept {context : Context K V σ B} {k : K} {v : V} {overwrite : Bool}
    (h : context.record k v overwrite = .unchanged ∨
      context.record k v overwrite = .duplicate) :
    overwrite = false ∧ ∃ u, context.entries.get? k = some (.resolved u) ∧
      context.record k v overwrite = if u == v then .unchanged else .duplicate := by
  rw [Context.record] at h ⊢
  split at h
  · rename_i u hk
    cases overwrite with
    | false => exact ⟨rfl, u, hk, rfl⟩
    | true => simp at h
  · simp at h
  · simp at h

/-- Recording writes the entry of the key, and resolves the placeholder that was issued for it. -/
theorem record_written {context written : Context K V σ B} {k : K} {v : V} {overwrite : Bool}
    {cell : Option CellId}
    (h : context.record k v overwrite = .recorded written cell) :
    written = context.setEntry k (.resolved v) ∧
      (∀ cells : Cells V, cells.resolve (context.entries.get? k) v =
        cell.elim cells fun h => cells.fill h v) ∧
      (overwrite = false → ∀ u, context.entries.get? k ≠ some (.resolved u)) := by
  rw [Context.record] at h
  split at h
  · rename_i u hk
    cases overwrite with
    | true =>
        simp only [if_true, Context.RecordOutcome.recorded.injEq] at h
        obtain ⟨rfl, rfl⟩ := h
        exact ⟨rfl, fun cells => by rw [hk]; rfl, fun hf => by simp at hf⟩
    | false =>
        simp only [Bool.false_eq_true, if_false] at h
        split at h <;> simp at h
  · rename_i p hk
    obtain ⟨rfl, rfl⟩ := Context.RecordOutcome.recorded.inj h
    exact ⟨rfl, fun cells => by rw [hk]; rfl, fun _ u => by simp [hk]⟩
  · rename_i hresolved hissued
    obtain ⟨rfl, rfl⟩ := Context.RecordOutcome.recorded.inj h
    refine ⟨rfl, fun cells => ?_, fun _ u hu => hresolved u hu⟩
    rw [Cells.resolve]
    · rfl
    · exact hissued

end Context

namespace World

variable [DecidableEq K]

/-! ### Making contexts -/

/-- A fresh context has no entries, so no key has a state in it. The client may have made its
builder meanwhile. -/
theorem newContext_shift (w : World K N V σ B) (client : σ) {context : Context K V σ B}
    (h : context.entries = .empty) :
    w.Shift ({ w with client }.newContext context).2 .quiet := by
  refine Shift.quiet (fun y l => ?_) rfl
  by_cases hy : y = ({ w with client }.newContext context).1
  · have hnone : w.context? y = none := by
      subst hy
      simp [newContext, context?]
    rw [keyState, keyState, context?_newContext, if_pos hy, hnone]
    simp [h]
  · rw [keyState, keyState, context?_newContext, if_neg hy]
    rfl

/-- A context of a cache is made without entries, with the configured equipment. -/
theorem createContext_inv {w w' : World K N V σ B} {c : CacheId} {x : ContextId}
    (h : w.createContext c = some (x, w')) :
    ∃ cache context, w.cache? c = some cache ∧ w.context? x = none ∧
      w'.context? x = some context ∧ context.entries = .empty ∧ context.parent = some c ∧
      context.builder = cache.config.makeBuilder.map (fun make => (make w.client).1) ∧
      context.placeholders = cache.config.placeholders ∧
      (∀ y, y ≠ x → w'.context? y = w.context? y) ∧ w'.caches = w.caches ∧
      w.Grows w' ∧ w.Shift w' .quiet := by
  rw [createContext, Option.map_eq_some_iff] at h
  obtain ⟨cache, hcache, h⟩ := h
  have hfresh (client : σ) (context : Context K V σ B) (hempty : context.entries = .empty)
      (hnew : ({ w with client }.newContext context) = (x, w')) :
      w.context? x = none ∧ w'.context? x = some context ∧
        (∀ y, y ≠ x → w'.context? y = w.context? y) ∧ w'.caches = w.caches ∧
        w.Grows w' ∧ w.Shift w' .quiet := by
    have hx : x = ({ w with client }.newContext context).1 := by rw [hnew]
    have hw' : w' = ({ w with client }.newContext context).2 := by rw [hnew]
    have hclient : w.Grows { w with client } := Grows.of_eq rfl rfl
    refine ⟨?_, ?_, fun y hy => ?_, ?_, ?_, ?_⟩
    · rw [hx]
      simp [newContext, context?]
    · rw [hw', context?_newContext, if_pos hx]
    · rw [hw', context?_newContext, if_neg (hx ▸ hy)]
      rfl
    · rw [hw']
      rfl
    · rw [hw']
      exact hclient.trans (Grows.newContext _ context)
    · rw [hw']
      exact newContext_shift w client hempty
  cases hmake : cache.config.makeBuilder with
  | none =>
      rw [hmake] at h
      obtain ⟨hnone, hx, hrest⟩ := hfresh w.client _ rfl h
      exact ⟨cache, _, hcache, hnone, hx, rfl, rfl, by rw [hmake]; rfl, rfl, hrest⟩
  | some make =>
      rw [hmake] at h
      obtain ⟨hnone, hx, hrest⟩ := hfresh (make w.client).2 _ rfl h
      exact ⟨cache, _, hcache, hnone, hx, rfl, rfl, by rw [hmake]; rfl, rfl, hrest⟩

/-- Counting on the parent of a context is bookkeeping. -/
theorem countOnParent_idles (w : World K N V σ B) (context : Context K V σ B)
    (e : Metrics.Event) : w.Idles (w.countOnParent context e) := by
  rw [countOnParent]
  split
  · exact Idles.refl w
  · split
    · exact Idles.refl w
    · rename_i hcache
      exact Idles.setCache hcache rfl rfl

/-- Writing one entry of a context keeps all that the world has. -/
theorem grows_setEntry {w : World K N V σ B} {x : ContextId} {context : Context K V σ B}
    (h : w.context? x = some context) (k : K) (e : Entry V) :
    w.Grows (w.setContext x (context.setEntry k e)) :=
  Grows.setContext h rfl rfl rfl

variable [ToString K]

omit [DecidableEq K] in
/-- A key that a context accepts lies in the namespace of its parent. -/
theorem checkKey_ok {w : World K N V σ B} {context : Context K V σ B} {k : K}
    (h : w.checkKey context k = some (.ok ())) (c : CacheId) (hc : context.parent = some c) :
    w.Owns c k := by
  rw [checkKey, hc] at h
  obtain ⟨cache, hcache, hcheck⟩ := Option.map_eq_some_iff.1 h
  exact ⟨cache, hcache, Cache.owns_of_checkKey hcheck⟩

/-- What a recording comes to: the parent rejects the key, or there is a value that is to be kept,
or else the value is written, and the placeholder that was issued for the key is resolved. -/
inductive Records [BEq V] (w : World K N V σ B) (x : ContextId) (k : K) (v : V) :
    Bool → Except Violation Unit → World K N V σ B → Prop
  | refused {overwrite context e} (found : w.context? x = some context)
      (rejected : w.checkKey context k = some (.error e)) :
      Records w x k v overwrite (.error e) w
  | unchanged {context u} (found : w.context? x = some context)
      (resolved : context.entries.get? k = some (.resolved u)) (same : (u == v) = true) :
      Records w x k v false (.ok ()) w
  | duplicate {context u} (found : w.context? x = some context)
      (resolved : context.entries.get? k = some (.resolved u)) (differs : (u == v) = false) :
      Records w x k v false (.error (.duplicateKey (toString k))) w
  | written {overwrite context} (found : w.context? x = some context)
      (accepted : w.checkKey context k = some (.ok ()))
      (unresolved : overwrite = false → ∀ u, context.entries.get? k ≠ some (.resolved u)) :
      Records w x k v overwrite (.ok ())
        { w.setContext x (context.setEntry k (.resolved v)) with
          cells := w.cells.resolve (context.entries.get? k) v }

/-- A recording comes to nothing else. -/
theorem records_of_record [BEq V] {w w' : World K N V σ B} {x : ContextId} {k : K} {v : V}
    {overwrite : Bool} {r : Except Violation Unit}
    (h : w.record x k v overwrite = some (r, w')) : w.Records x k v overwrite r w' := by
  simp only [record, bind, Option.bind_eq_some_iff] at h
  obtain ⟨context, hx, check, hcheck, h⟩ := h
  cases check with
  | error e =>
      obtain ⟨rfl, rfl⟩ := Prod.mk.inj (Option.some.inj h)
      exact .refused hx hcheck
  | ok _ =>
      cases hrecord : context.record k v overwrite with
      | unchanged =>
          obtain ⟨rfl, u, hu, hkept⟩ := Context.record_kept (Or.inl hrecord)
          have hsame : (u == v) = true := by simpa [hrecord] using hkept
          simp only [hrecord] at h
          obtain ⟨rfl, rfl⟩ := Prod.mk.inj (Option.some.inj h)
          exact .unchanged hx hu hsame
      | duplicate =>
          obtain ⟨rfl, u, hu, hkept⟩ := Context.record_kept (Or.inr hrecord)
          have hdiffers : (u == v) = false := by simpa [hrecord] using hkept
          simp only [hrecord] at h
          obtain ⟨rfl, rfl⟩ := Prod.mk.inj (Option.some.inj h)
          exact .duplicate hx hu hdiffers
      | recorded written cell =>
          obtain ⟨rfl, hcells, hunresolved⟩ := Context.record_written hrecord
          have hwritten := Records.written (v := v) hx hcheck hunresolved
          rw [hcells] at hwritten
          cases cell <;>
            simp only [hrecord] at h <;>
            obtain ⟨rfl, rfl⟩ := Prod.mk.inj (Option.some.inj h) <;>
            exact hwritten

/-- Recording publishes nothing. -/
theorem record_stored [BEq V] {w w' : World K N V σ B} {x : ContextId} {k : K} {v : V}
    {overwrite : Bool} {r : Except Violation Unit}
    (h : w.record x k v overwrite = some (r, w')) (c : CacheId) (l : K) :
    w'.stored c l = w.stored c l := by
  cases records_of_record h <;> rfl

/-- Recording either changes nothing, or gives the key its value and resolves the placeholder
that was issued for it. A recorded value is replaced only by overwriting. -/
theorem record_inv [BEq V] {w w' : World K N V σ B} {x : ContextId} {k : K} {v : V}
    {overwrite : Bool} {r : Except Violation Unit}
    (h : w.record x k v overwrite = some (r, w')) :
    (w' = w ∧ (r = .ok () → overwrite = false)) ∨
      (r = .ok () ∧ w.Grows w' ∧ w.Shift w' (.record x k v) ∧
        (∀ c, w'.parent? x = some c → w.Owns c k) ∧
        (overwrite = false → ∀ u, w.keyState x k ≠ some (.resolved u))) := by
  cases records_of_record h with
  | refused found rejected => exact Or.inl ⟨rfl, fun he => by simp at he⟩
  | unchanged found resolved same => exact Or.inl ⟨rfl, fun _ => rfl⟩
  | duplicate found resolved differs => exact Or.inl ⟨rfl, fun _ => rfl⟩
  | @written _ context found accepted unresolved =>
      rw [← keyState_of_context? found k] at unresolved ⊢
      have hgrows : w.Grows { w.setContext x (context.setEntry k (.resolved v)) with
          cells := w.cells.resolve (w.keyState x k) v } :=
        (grows_setEntry found k (.resolved v)).trans (Grows.of_eq rfl rfl)
      refine Or.inr ⟨rfl, hgrows,
        Shift.record x k v (keyState_setEntry found k (.resolved v)) rfl, fun c hc => ?_,
        unresolved⟩
      rw [hgrows.parent_eq found, parent?_of_context? found] at hc
      exact checkKey_ok accepted c hc

/-- A request for a pending key is refused, or answered with the stand-in of a placeholder
that is issued for it now. -/
theorem issuePlaceholder_inv {w w' : World K N V σ B} {x : ContextId}
    {context : Context K V σ B} {k : K} {answer : Except RequestError (Option V)}
    (hx : w.context? x = some context) (hk : context.entries.get? k = some .pending)
    (h : w.issuePlaceholder x context k = (answer, w')) :
    (w' = w ∧ ∃ e, answer = .error e) ∨
      ∃ p, answer = .ok (some p.standIn) ∧ w.Grows w' ∧ (∀ c d, w'.stored c d = w.stored c d) ∧
        w.Shift w' (.issue x k p) := by
  rw [issuePlaceholder] at h
  cases hmake : context.placeholders with
  | none =>
      rw [hmake] at h
      obtain ⟨rfl, rfl⟩ := Prod.mk.inj h
      exact Or.inl ⟨rfl, _, rfl⟩
  | some make =>
      rcases hp : make k w.cells.alloc.1 w.client with ⟨⟨kind, standIn⟩, client⟩
      rw [hmake] at h
      simp only [hp, Prod.mk.injEq] at h
      obtain ⟨rfl, rfl⟩ := h
      let w₁ : World K N V σ B := { w with cells := w.cells.alloc.2, client }
      have hcount := countOnParent_idles w₁ context .placeholderIssued
      have hx₁ : (w₁.countOnParent context .placeholderIssued).context? x = some context := by
        rw [context?, hcount.contexts]
        exact hx
      have hw₁ : w.Grows w₁ := Grows.of_eq rfl rfl
      refine Or.inr ⟨⟨kind, standIn, w.cells.alloc.1⟩, rfl, ?_, hcount.stored, ?_⟩
      · exact (hw₁.trans hcount.grows).trans (grows_setEntry hx₁ k _)
      · refine Shift.issue x k _ (by rw [keyState_of_context? hx, hk]) rfl ?_ ?_ ?_
        · exact ⟨context, make, w.client, hx, hmake, by rw [hp]⟩
        · intro y l
          rw [keyState_setEntry hx₁, keyState_congr hcount.contexts]
          rfl
        · exact hcount.cells

/-- A request that misses the store of the parent is answered by what the context knows of the
key, or marks it pending and calls the builder. -/
theorem lookupEntry_inv {w w' : World K N V σ B} {x : ContextId} {context : Context K V σ B}
    {k : K} {l : Lookup V B} (hx : w.context? x = some context)
    (howns : ∀ c, context.parent = some c → w.Owns c k)
    (h : w.lookupEntry x context k = (l, w')) :
    w.Obeys w' (.request x k) ∧
      ((∃ answer, l = .answered answer ∧ ∀ u, answer = .ok (some u) → w'.Gives x k u) ∨
        ∃ b, l = .build b ∧ context.builder = some b ∧ w.Shift w' (.mark x k)) := by
  have hstate : w.keyState x k = context.entries.get? k := keyState_of_context? hx k
  have hparent {w' : World K N V σ B} (hgrows : w.Grows w') (c : CacheId)
      (hc : w'.parent? x = some c) : w.Owns c k := by
    rw [hgrows.parent_eq hx, parent?_of_context? hx] at hc
    exact howns c hc
  have hsame : w.Obeys w (.request x k) := (Idles.refl w).obeys _
  rw [lookupEntry] at h
  cases hk : context.entries.get? k with
  | none =>
      rw [hk] at hstate
      have hgrows := grows_setEntry hx k .pending
      have hmark : w.Shift (w.setContext x (context.setEntry k .pending)) (.mark x k) :=
        Shift.mark x k hstate (keyState_setEntry hx k .pending) rfl
      cases hb : context.builder with
      | none =>
          simp only [hk, hb, Prod.mk.injEq] at h
          obtain ⟨rfl, rfl⟩ := h
          exact ⟨Obeys.of_write hgrows hmark rfl (fun _ _ => rfl) rfl (hparent hgrows),
            Or.inl ⟨_, rfl, fun u hu => by simp at hu⟩⟩
      | some b =>
          simp only [hk, hb, Prod.mk.injEq] at h
          obtain ⟨rfl, rfl⟩ := h
          have hcount := countOnParent_idles (w.setContext x (context.setEntry k .pending))
            context .builderInvocation
          have hmark := hmark.congr hcount.contexts hcount.cells
          have hgrows := hgrows.trans hcount.grows
          exact ⟨Obeys.of_write hgrows hmark rfl hcount.stored rfl (hparent hgrows),
            Or.inr ⟨b, rfl, rfl, hmark⟩⟩
  | some entry =>
      rw [hk] at hstate
      cases entry with
      | pending =>
          simp only [hk, Prod.mk.injEq] at h
          obtain ⟨rfl, rfl⟩ := h
          rcases hp : w.issuePlaceholder x context k with ⟨answer, w'⟩
          rcases issuePlaceholder_inv hx hk hp with ⟨rfl, e, rfl⟩ | ⟨p, rfl, hgrows, hs, hissue⟩
          · exact ⟨hsame, Or.inl ⟨_, rfl, fun u hu => by simp at hu⟩⟩
          · refine ⟨Obeys.of_write hgrows hissue rfl hs rfl (hparent hgrows),
              Or.inl ⟨_, rfl, fun u hu => ?_⟩⟩
            obtain rfl : p.standIn = u := by simpa using hu
            cases hissue with
            | issue _ _ _ _ _ _ states _ =>
                exact Gives.standIn p (by rw [states, if_pos ⟨rfl, rfl⟩])
      | placeholderIssued p =>
          simp only [hk, Prod.mk.injEq] at h
          obtain ⟨rfl, rfl⟩ := h
          refine ⟨hsame, Or.inl ⟨_, rfl, fun u hu => ?_⟩⟩
          obtain rfl : p.standIn = u := by simpa using hu
          exact Gives.standIn p hstate
      | resolved v =>
          simp only [hk, Prod.mk.injEq] at h
          obtain ⟨rfl, rfl⟩ := h
          refine ⟨hsame, Or.inl ⟨_, rfl, fun u hu => ?_⟩⟩
          obtain rfl : v = u := by simpa using hu
          exact Gives.recorded v hstate

/-- What a request within a pass comes to: the parent rejects the key or has a value for it, or else
the context is asked. -/
inductive LooksUp (w : World K N V σ B) (x : ContextId) (k : K) :
    Lookup V B → World K N V σ B → Prop
  | refused {context c cache e} (found : w.context? x = some context)
      (parent : context.parent = some c) (cached : w.cache? c = some cache)
      (foreign : cache.published k = .error e) :
      LooksUp w x k (.answered (.error (.violation e))) w
  | published {context c cache v} (found : w.context? x = some context)
      (parent : context.parent = some c) (cached : w.cache? c = some cache)
      (stored : cache.published k = .ok (some v)) : LooksUp w x k (.answered (.ok (some v))) w
  | entry {context l w'} (found : w.context? x = some context)
      (unpublished : ∀ c, context.parent = some c →
        ∃ cache, w.cache? c = some cache ∧ cache.published k = .ok none)
      (entered : w.lookupEntry x context k = (l, w')) : LooksUp w x k l w'

/-- A request within a pass comes to nothing else. -/
theorem looksUp_of_lookup {w w' : World K N V σ B} {x : ContextId} {k : K} {l : Lookup V B}
    (h : w.lookup x k = some (l, w')) : w.LooksUp x k l w' := by
  simp only [lookup, bind, Option.bind_eq_some_iff] at h
  obtain ⟨context, hx, h⟩ := h
  cases hparent : context.parent with
  | none =>
      simp only [hparent] at h
      exact .entry hx (by simp [hparent]) (Option.some.inj h)
  | some c =>
      simp only [hparent, Option.bind_eq_some_iff] at h
      obtain ⟨cache, hcache, h⟩ := h
      split at h
      · rename_i e hforeign
        obtain ⟨rfl, rfl⟩ := Prod.mk.inj (Option.some.inj h)
        exact .refused hx hparent hcache hforeign
      · rename_i v hv
        obtain ⟨rfl, rfl⟩ := Prod.mk.inj (Option.some.inj h)
        exact .published hx hparent hcache hv
      · rename_i hnone
        refine .entry hx (fun d hd => ?_) (Option.some.inj h)
        obtain rfl : c = d := Option.some.inj (hparent.symm.trans hd)
        exact ⟨cache, hcache, hnone⟩

/-- A request within a pass is answered with a value only if something stands behind it. The
builder is called for a key that was not seen before. -/
theorem lookup_inv {w w' : World K N V σ B} {x : ContextId} {k : K} {l : Lookup V B}
    (h : w.lookup x k = some (l, w')) :
    w.Obeys w' (.request x k) ∧
      ((∃ answer, l = .answered answer ∧ ∀ u, answer = .ok (some u) → w'.Gives x k u) ∨
        ∃ b context, l = .build b ∧ w.context? x = some context ∧ context.builder = some b ∧
          w.Shift w' (.mark x k)) := by
  have hsame : w.Obeys w (.request x k) := (Idles.refl w).obeys _
  cases looksUp_of_lookup h with
  | refused found parent cached foreign =>
      exact ⟨hsame, Or.inl ⟨_, rfl, fun u hu => by simp at hu⟩⟩
  | @published context c cache v found parent cached stored =>
      refine ⟨hsame, Or.inl ⟨_, rfl, fun u hu => ?_⟩⟩
      obtain rfl : v = u := by simpa using hu
      refine Gives.published c v (by rw [parent?_of_context? found, parent]) ?_
      rw [stored_of_cache? cached]
      exact (Cache.published_ok stored).2
  | @entry context _ _ found unpublished entered =>
      have howns : ∀ c, context.parent = some c → w.Owns c k := by
        intro c hc
        obtain ⟨cache, hcache, hnone⟩ := unpublished c hc
        exact ⟨cache, hcache, (Cache.published_ok hnone).1⟩
      obtain ⟨hobeys, hanswered | ⟨b, rfl, hb, hmark⟩⟩ := lookupEntry_inv found howns entered
      · exact ⟨hobeys, Or.inl hanswered⟩
      · exact ⟨hobeys, Or.inr ⟨b, context, rfl, found, hb, hmark⟩⟩

/-- A key that is answered with a value is given that value. -/
theorem lookup_answered {w w' : World K N V σ B} {x : ContextId} {k : K}
    {answer : Except RequestError (Option V)} (h : w.lookup x k = some (.answered answer, w'))
    {u : V} (hu : answer = .ok (some u)) : w'.Gives x k u := by
  obtain ⟨-, ⟨answer', hanswer, hgives⟩ | ⟨b, context, hbuild, -⟩⟩ := lookup_inv h
  · obtain rfl := Lookup.answered.inj hanswer
    exact hgives u hu
  · simp at hbuild

/-- A key whose builder is called is marked, and the builder is that of the context. -/
theorem lookup_build {w w' : World K N V σ B} {x : ContextId} {k : K} {b : B}
    (h : w.lookup x k = some (.build b, w')) :
    ∃ context, w.context? x = some context ∧ context.builder = some b ∧
      w.Shift w' (.mark x k) := by
  obtain ⟨-, ⟨answer, hanswer, -⟩ | ⟨b', context, hbuild, hx, hb, hmark⟩⟩ := lookup_inv h
  · simp at hanswer
  · obtain rfl := Lookup.build.inj hbuild
    exact ⟨context, hx, hb, hmark⟩

/-- A builder is called only for a key that the parent has no value of. -/
theorem lookup_unpublished {w w' : World K N V σ B} {x : ContextId} {k : K} {b : B} {c : CacheId}
    (h : w.lookup x k = some (.build b, w')) (hparent : w.parent? x = some c) :
    w.stored c k = none := by
  cases looksUp_of_lookup h with
  | entry found unpublished entered =>
      rw [parent?_of_context? found] at hparent
      obtain ⟨cache, hcache, hnone⟩ := unpublished c hparent
      rw [stored_of_cache? hcache, (Cache.published_ok hnone).2]

/-- A placeholder that is not issued is refused by a violation. -/
theorem issuePlaceholder_error {w w' : World K N V σ B} {x : ContextId}
    {context : Context K V σ B} {k : K} {e : RequestError}
    (h : w.issuePlaceholder x context k = (.error e, w')) : ∃ v, e = .violation v := by
  rw [issuePlaceholder] at h
  split at h
  · obtain ⟨he, -⟩ := Prod.mk.inj h
    exact ⟨_, (Except.error.inj he).symm⟩
  · simp at h

/-- A request within a pass that is answered with an error at once is answered with a violation. -/
theorem lookup_error {w w' : World K N V σ B} {x : ContextId} {k : K} {e : RequestError}
    (h : w.lookup x k = some (.answered (.error e), w')) : ∃ v, e = .violation v := by
  cases looksUp_of_lookup h with
  | refused found parent cached foreign => exact ⟨_, rfl⟩
  | @entry context _ _ found unpublished entered =>
      rw [lookupEntry] at entered
      split at entered
      · simp at entered
      · simp at entered
      · obtain ⟨hanswer, hworld⟩ := Prod.mk.inj entered
        exact issuePlaceholder_error (Prod.ext (Lookup.answered.inj hanswer) hworld)
      · cases hbuilder : context.builder <;> simp [hbuilder] at entered

/-! ### Requests that are answered at once -/

/-- Recording in a context. -/
theorem record_obeys [BEq V] {w w' : World K N V σ B} {x : ContextId} {k : K} {v : V}
    {overwrite : Bool} {r : Except Violation Unit}
    (h : w.record x k v overwrite = some (r, w')) : w.Obeys w' (.record x k v overwrite) := by
  rcases record_inv h with ⟨rfl, -⟩ | ⟨-, hgrows, hshift, howns, hold⟩
  · exact (Idles.refl w').obeys _
  · exact Obeys.of_write hgrows hshift ⟨overwrite, rfl, hold⟩ (record_stored h) rfl howns

/-- Inserting into a cache. -/
theorem insert_obeys [BEq V] {w w' : World K N V σ B} {c : CacheId} {k : K} {v : V}
    {r : Except Violation Bool} (h : w.onCache c (·.insert k v) = some (r, w')) :
    w.Obeys w' (.insert c k v) := by
  simp only [onCache, Option.map_eq_some_iff, Prod.mk.injEq] at h
  obtain ⟨cache, hcache, hr, rfl⟩ := h
  have hget := cache.insert_get? k v
  have hconfig : (cache.insert k v).2.config = cache.config := Cache.insert_config cache k v
  refine ⟨Grows.setCache hcache hconfig fun l u hu => ?_, ⟨.quiet, ?_, trivial, ?_⟩,
    fun d l u hu => ?_⟩
  · rcases hget l with hl | ⟨rfl, -, hnone, -⟩
    · rw [hl, hu]
    · simp [hnone] at hu
  · exact Shift.quiet (fun _ _ => rfl) rfl
  · exact fun _ _ _ hwrites => by simp [Effect.writes] at hwrites
  · rw [stored_setCache hcache] at hu
    by_cases hcd : c = d
    · subst hcd
      rw [if_pos rfl] at hu
      rcases hget l with hl | ⟨rfl, howns, -, hv⟩
      · exact Or.inl (by rw [stored_of_cache? hcache, ← hl, hu])
      · obtain rfl : v = u := Option.some.inj (hv.symm.trans hu)
        exact Or.inr (Or.inl ⟨rfl, cache, hcache, howns⟩)
    · rw [if_neg hcd] at hu
      exact Or.inl hu

/-- Committing a context. -/
theorem commit_obeys [BEq V] {w w' : World K N V σ B} {x : ContextId}
    {r : Except Violation Bool} (h : w.commit x = some (r, w')) : w.Obeys w' (.commit x) := by
  cases r with
  | error e =>
      obtain rfl := commit_error h
      exact (Idles.refl w').obeys _
  | ok b =>
      obtain ⟨context, c, cache, cache', hx, hparent, hcache, -, hpublish, rfl⟩ := commit_inv h
      refine ⟨Grows.setCache hcache (Cache.publish_config hpublish) fun l u hu => ?_,
        ⟨.quiet, Shift.quiet (fun _ _ => rfl) rfl, trivial,
          fun _ _ _ hwrites => by simp [Effect.writes] at hwrites⟩, fun d l u hu => ?_⟩
      · have hkept := commit_keeps h (c := c) (k := l) (v := u)
          (by rw [stored_of_cache? hcache, hu])
        rwa [stored_setCache hcache, if_pos rfl] at hkept
      · rcases commit_source h hu with hold | ⟨hparent, hready, hstate⟩
        · exact Or.inl hold
        · exact Or.inr (Or.inr ⟨x, rfl, hparent, hready, hstate⟩)

/-- A context that a cache makes for a routine may be given equipment of its own. -/
theorem createContext_obeys [DecidableEq N] [BEq V] {w w' : World K N V σ B} {c : CacheId}
    {builder : Option B} {placeholders : Option (PlaceholderFactory K V σ)} {x : ContextId}
    (h : w.answer (.createContext c builder placeholders) = some (x, w')) :
    w.Obeys w' .nothing := by
  simp only [answer, bind, Option.bind_eq_some_iff, Option.pure_def, Option.some.injEq,
    Prod.mk.injEq] at h
  obtain ⟨⟨y, w₁⟩, hcreate, context, hx, rfl, rfl⟩ := h
  obtain ⟨-, made, -, hnone, hmade, hempty, -, -, -, hother, hcaches, hgrows, hshift⟩ :=
    createContext_inv hcreate
  obtain rfl : made = context := Option.some.inj (hmade.symm.trans hx)
  have hstates (z : ContextId) (l : K) : w₁.keyState z l = w.keyState z l := by
    cases hshift with
    | quiet states _ => exact states z l
  refine Obeys.of_quiet ?_ ?_ (fun d l => ?_) _
  · refine ⟨hgrows.stored, hgrows.caches, fun z old hz => ?_⟩
    have hzy : z ≠ y := by
      rintro rfl
      simp [hnone] at hz
    exact ⟨old, by rw [context?_setContext, if_neg hzy.symm, hother z hzy, hz], rfl, rfl, rfl⟩
  · refine Shift.quiet (fun z l => ?_) ?_
    · rw [keyState_setContext hmade, ← hstates z l]
      by_cases hyz : y = z
      · subst hyz
        rw [if_pos rfl, keyState_of_context? hmade]
      · rw [if_neg hyz]
    · cases hshift with
      | quiet _ cells => exact cells
  · rw [stored_setContext, World.stored, World.stored, cache?, cache?, hcaches]

omit [ToString K] in
/-- Making a cache. -/
theorem newCache_obeys (w : World K N V σ B) (config : Config K V σ B) (d : Demand K V) :
    w.Obeys (w.newCache config).2 d := by
  refine Obeys.of_quiet (Grows.newCache w config) (Shift.quiet (fun _ _ => rfl) rfl)
    (fun c k => ?_) d
  rw [World.stored, cache?_newCache]
  split
  · rename_i hc
    have hnone : w.cache? c = none := by
      subst hc
      simp [World.newCache, cache?]
    rw [World.stored, hnone]
    rfl
  · rfl

omit [ToString K] in
/-- Naming a namespace of a registry. -/
theorem scopedCache_obeys [DecidableEq N] {w w' : World K N V σ B} {r : RegistryId} {ns : N}
    {c : CacheId} (h : w.scopedCache r ns = some (c, w')) (d : Demand K V) : w.Obeys w' d := by
  simp only [scopedCache, Option.map_eq_some_iff] at h
  obtain ⟨registry, -, h⟩ := h
  split at h
  · obtain ⟨-, rfl⟩ := Prod.mk.inj h
    exact (Idles.refl w).obeys d
  · obtain ⟨-, rfl⟩ := Prod.mk.inj h
    have hmade := newCache_obeys w (registry.configFor ns) d
    exact hmade.congr (Grows.of_eq rfl rfl) (fun _ _ => rfl) rfl rfl

/-- Whatever a routine requests, the world does no more than the request demands. -/
theorem answer_obeys [DecidableEq N] [BEq V] {w w' : World K N V σ B} {r : Request K N V σ B}
    {a : r.Answer} (h : w.answer r = some (a, w')) : w.Obeys w' r.demand := by
  cases r with
  | newCache config =>
      obtain ⟨-, rfl⟩ := Prod.mk.inj (Option.some.inj h)
      exact newCache_obeys w config _
  | published c k =>
      simp only [answer, Option.map_eq_some_iff, Prod.mk.injEq] at h
      obtain ⟨-, -, -, rfl⟩ := h
      exact (Idles.refl w).obeys _
  | insert c k v => exact insert_obeys h
  | clearFailures c =>
      simp only [answer, onCache, Option.map_eq_some_iff, Prod.mk.injEq] at h
      obtain ⟨cache, hcache, -, rfl⟩ := h
      have hidle : w.Idles (w.setCache c cache.clearFailures) := Idles.setCache hcache rfl rfl
      exact hidle.obeys _
  | resetCounters c =>
      simp only [answer, onCache, Option.map_eq_some_iff, Prod.mk.injEq] at h
      obtain ⟨cache, hcache, -, rfl⟩ := h
      have hidle : w.Idles (w.setCache c cache.resetCounters) := Idles.setCache hcache rfl rfl
      exact hidle.obeys _
  | newContext builder placeholders =>
      obtain ⟨-, rfl⟩ := Prod.mk.inj (Option.some.inj h)
      exact Obeys.of_quiet (Grows.newContext w _) (newContext_shift w w.client rfl)
        (fun _ _ => rfl) _
  | createContext c builder placeholders => exact createContext_obeys h
  | record x k v overwrite => exact record_obeys h
  | recorded x k =>
      simp only [answer, Option.map_eq_some_iff, Prod.mk.injEq] at h
      obtain ⟨-, -, -, rfl⟩ := h
      exact (Idles.refl w).obeys _
  | clear x =>
      simp only [answer, Option.map_eq_some_iff, Prod.mk.injEq] at h
      obtain ⟨context, hx, -, rfl⟩ := h
      refine ⟨Grows.setContext hx rfl rfl rfl, ⟨.clear x, Shift.clear x (fun y l => ?_) rfl, rfl,
        ?_⟩, fun _ _ _ hu => Or.inl hu⟩
      · rw [keyState_setContext hx]
        by_cases hxy : x = y
        · subst hxy
          rw [if_pos rfl, if_pos rfl]
          rfl
        · rw [if_neg hxy, if_neg (Ne.symm hxy)]
      · exact fun _ _ _ hwrites => by simp [Effect.writes] at hwrites
  | commit x => exact commit_obeys h
  | newCell =>
      obtain ⟨-, rfl⟩ := Prod.mk.inj (Option.some.inj h)
      have hgrows : w.Grows { w with cells := w.cells.alloc.2 } := Grows.of_eq rfl rfl
      have hshift : w.Shift { w with cells := w.cells.alloc.2 } .newCell :=
        Shift.newCell (fun _ _ => rfl) rfl
      exact ⟨hgrows, ⟨_, hshift, trivial, fun _ _ _ hwrites => by simp [Effect.writes] at hwrites⟩,
        fun _ _ _ hv => Or.inl hv⟩
  | newRegistry template belongs =>
      obtain ⟨-, rfl⟩ := Prod.mk.inj (Option.some.inj h)
      exact ((Idles.refl w).obeys _).congr (Grows.of_eq rfl rfl) (fun _ _ => rfl) rfl rfl
  | scopedCache r ns => exact scopedCache_obeys h _
  | observe =>
      obtain ⟨-, rfl⟩ := Prod.mk.inj (Option.some.inj h)
      exact (Idles.refl w).obeys _
  | setClient client =>
      obtain ⟨-, rfl⟩ := Prod.mk.inj (Option.some.inj h)
      exact (Idles.setClient w client).obeys _

end World

end DerivationCache
