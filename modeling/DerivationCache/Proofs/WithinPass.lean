import DerivationCache.Proofs.CommitDecision
import DerivationCache.Proofs.Path

/-!
# Within a pass

While a pass is running and its builders touch nothing but its context, all that changes are the
entries of the context, the cells, the counters and the state of the collaborators. A
`PassSetting` is what stays as it is meanwhile, and `World.InPass` says that a world is one of
the pass, with these entries. One lemma for each way in which a request within the pass can go
says which step the machine makes, so that what a whole pass does is read off the entries.

## Main results

* `World.InPass.ask_known`, `ask_issue`, `ask_refused`, `ask_unseen`: the four ways of a request.
* `World.InPass.return_value`: the value that a builder returns is recorded.
-/

namespace DerivationCache

variable {K N V σ B : Type}

/-- What a pass works with, and what does not change while it is running. -/
structure PassSetting (K V σ B : Type) where
  context : ContextId
  /-- The cache that the pass commits into. -/
  parent : CacheId
  builder : B
  placeholders : Option (PlaceholderFactory K V σ)
  ledger : CacheId → Option (Cache K V σ B)
  /-- What the parent holds. -/
  cache : Cache K V σ B
  ledger_parent : ledger parent = some cache

/-- The context of the pass with these entries. -/
def PassSetting.contextWith (s : PassSetting K V σ B) (entries : Table K (Entry V)) :
    Context K V σ B where
  entries := entries
  parent := some s.parent
  builder := some s.builder
  placeholders := s.placeholders

section ContextWith

variable (s : PassSetting K V σ B) (entries : Table K (Entry V))

@[simp] theorem PassSetting.contextWith_entries : (s.contextWith entries).entries = entries := rfl

@[simp] theorem PassSetting.contextWith_parent :
    (s.contextWith entries).parent = some s.parent := rfl

@[simp] theorem PassSetting.contextWith_builder :
    (s.contextWith entries).builder = some s.builder := rfl

@[simp] theorem PassSetting.contextWith_placeholders :
    (s.contextWith entries).placeholders = s.placeholders := rfl

@[simp] theorem PassSetting.contextWith_setEntry [DecidableEq K] (k : K) (e : Entry V) :
    (s.contextWith entries).setEntry k e = s.contextWith (entries.insert k e) := rfl

end ContextWith

/-- The world is one of the pass, whose context has these entries. -/
structure World.InPass (w : World K N V σ B) (s : PassSetting K V σ B)
    (entries : Table K (Entry V)) : Prop where
  context : w.context? s.context = some (s.contextWith entries)
  ledger : w.ledger = s.ledger

variable [DecidableEq K]

/-- What the pass answers for a key from what it knows already: the published value, the recorded
one, or the stand-in of the placeholder that was issued for the key. -/
def PassSetting.known? (s : PassSetting K V σ B) (entries : Table K (Entry V)) (k : K) :
    Option V :=
  (s.cache.store.get? k).or
    (match entries.get? k with
    | some (.resolved v) => some v
    | some (.placeholderIssued p) => some p.standIn
    | _ => none)

/-- Writing an entry changes whether its key is in flight. -/
theorem PassSetting.inFlight_insert (s : PassSetting K V σ B) (entries : Table K (Entry V)) (k : K)
    (e : Entry V) (l : K) :
    (s.contextWith (entries.insert k e)).InFlight l ↔
      (k = l ∧ e.value? = none) ∨ (k ≠ l ∧ (s.contextWith entries).InFlight l) := by
  by_cases hkl : k = l <;> simp [Context.InFlight, hkl]

/-- At the beginning of a pass no key is in flight. -/
theorem PassSetting.not_inFlight_empty (s : PassSetting K V σ B) (k : K) :
    ¬ (s.contextWith .empty).InFlight k := by
  rintro ⟨e, he, -⟩
  simp at he

/-- A key in flight was seen and has no value. -/
theorem PassSetting.seen_of_inFlight {s : PassSetting K V σ B} {entries : Table K (Entry V)} {k : K}
    (h : (s.contextWith entries).InFlight k) :
    (entries.get? k).isSome = true ∧ ∀ v, entries.get? k ≠ some (.resolved v) := by
  obtain ⟨e, he, hvalue⟩ := h
  have hk : entries.get? k = some e := he
  refine ⟨by rw [hk, Option.isSome_some], fun v hv => ?_⟩
  rw [Option.some.inj (hk.symm.trans hv)] at hvalue
  simp [Entry.value?] at hvalue

namespace World.InPass

variable {s : PassSetting K V σ B} {entries : Table K (Entry V)} {w : World K N V σ B}

omit [DecidableEq K] in
/-- The parent is known up to its counters. -/
theorem parent (h : w.InPass s entries) :
    ∃ cache, w.cache? s.parent = some cache ∧ cache.resetCounters = s.cache :=
  cache_of_ledger (by rw [h.ledger, s.ledger_parent])

/-- The state of a key within the pass is that of its entry. -/
theorem keyState (h : w.InPass s entries) (k : K) :
    w.keyState s.context k = entries.get? k :=
  keyState_of_context? h.context k

/-- What is published during the pass is what was published when it began. -/
theorem stored (h : w.InPass s entries) (k : K) :
    w.stored s.parent k = s.cache.store.get? k := by
  rw [stored_eq_ledger, h.ledger, s.ledger_parent, Option.bind_some]

/-- Writing one entry leads on within the same pass. -/
theorem setEntry (h : w.InPass s entries) (k : K) (e : Entry V) :
    (w.setContext s.context (s.contextWith (entries.insert k e))).InPass s
      (entries.insert k e) :=
  ⟨context?_setContext_self h.context _, h.ledger⟩

omit [DecidableEq K] in
/-- Counting an event on the parent changes nothing that the pass goes by. -/
theorem countOnParent (h : w.InPass s entries) (context : Context K V σ B) (e : Metrics.Event) :
    (w.countOnParent context e).InPass s entries := by
  refine ⟨?_, (ledger_countOnParent w context e).trans h.ledger⟩
  rw [← h.context, World.countOnParent]
  split
  · rfl
  · split <;> rfl

/-! ### Looking a key up -/

variable [ToString K]

/-- A published key is answered at once, and nothing changes. -/
theorem lookup_published (h : w.InPass s entries) {k : K} {v : V}
    (howns : s.cache.owns k = true) (hv : s.cache.store.get? k = some v) :
    w.lookup s.context k = some (.answered (.ok (some v)), w) := by
  obtain ⟨cache, hcache, hsame⟩ := h.parent
  have hpublished : cache.published k = .ok (some v) := by
    rw [← hsame] at howns hv
    have hcheck : cache.checkKey k = .ok () := if_pos howns
    rw [Cache.published, hcheck, show cache.store.get? k = some v from hv]
    rfl
  rw [lookup, h.context]
  simp [hcache, hpublished]

/-- An unpublished key is answered by the entries alone. -/
theorem lookup_missed (h : w.InPass s entries) {k : K} (howns : s.cache.owns k = true)
    (hv : s.cache.store.get? k = none) :
    w.lookup s.context k = some (w.lookupEntry s.context (s.contextWith entries) k) := by
  obtain ⟨cache, hcache, hsame⟩ := h.parent
  have hpublished : cache.published k = .ok none := by
    rw [← hsame] at howns hv
    have hcheck : cache.checkKey k = .ok () := if_pos howns
    rw [Cache.published, hcheck, show cache.store.get? k = none from hv]
    rfl
  rw [lookup, h.context]
  simp [hcache, hpublished]

/-- What the pass knows of a key it answers at once. -/
theorem lookup_known (h : w.InPass s entries) {k : K} {v : V} (howns : s.cache.owns k = true)
    (hv : s.known? entries k = some v) :
    w.lookup s.context k = some (.answered (.ok (some v)), w) := by
  cases hstored : s.cache.store.get? k with
  | some u =>
      obtain rfl : u = v := by simpa [PassSetting.known?, hstored] using hv
      exact h.lookup_published howns hstored
  | none =>
      rw [h.lookup_missed howns hstored, lookupEntry, PassSetting.contextWith_entries]
      cases hk : entries.get? k with
      | none => simp [PassSetting.known?, hstored, hk] at hv
      | some e =>
          cases e with
          | pending => simp [PassSetting.known?, hstored, hk] at hv
          | placeholderIssued p =>
              obtain rfl : p.standIn = v := by simpa [PassSetting.known?, hstored, hk] using hv
              rfl
          | resolved u =>
              obtain rfl : u = v := by simpa [PassSetting.known?, hstored, hk] using hv
              rfl

/-- A pending key is answered with a fresh placeholder, if there is a way to make one. -/
theorem lookup_issue (h : w.InPass s entries) {k : K} (howns : s.cache.owns k = true)
    (hv : s.cache.store.get? k = none) (hk : entries.get? k = some .pending)
    (hsome : s.placeholders.isSome = true) :
    ∃ p w', w.lookup s.context k = some (.answered (.ok (some p.standIn)), w') ∧
      w'.InPass s (entries.insert k (.placeholderIssued p)) := by
  obtain ⟨make, hmake⟩ := Option.isSome_iff_exists.1 hsome
  rcases hp : make k w.cells.alloc.1 w.client with ⟨⟨kind, standIn⟩, client⟩
  have hmade : ({ w with cells := w.cells.alloc.2, client } : World K N V σ B).InPass s entries :=
    ⟨h.context, h.ledger⟩
  have hissued := (hmade.countOnParent (s.contextWith entries) .placeholderIssued).setEntry k
    (.placeholderIssued ⟨kind, standIn, w.cells.alloc.1⟩)
  refine ⟨⟨kind, standIn, w.cells.alloc.1⟩, _, ?_, hissued⟩
  rw [h.lookup_missed howns hv]
  simp [lookupEntry, hk, issuePlaceholder, hmake, hp]

/-- A pending key is refused if there is no way to make a placeholder. -/
theorem lookup_refused (h : w.InPass s entries) {k : K} (howns : s.cache.owns k = true)
    (hv : s.cache.store.get? k = none) (hk : entries.get? k = some .pending)
    (hnone : s.placeholders = none) :
    w.lookup s.context k =
      some (.answered (.error (.violation (.unresolvableReentry (toString k)))), w) := by
  rw [h.lookup_missed howns hv]
  simp [lookupEntry, hk, issuePlaceholder, hnone]

/-- The builder is called for a key that was not seen before, and the key is pending. -/
theorem lookup_unseen (h : w.InPass s entries) {k : K} (howns : s.cache.owns k = true)
    (hv : s.cache.store.get? k = none) (hk : entries.get? k = none) :
    ∃ w', w.lookup s.context k = some (.build s.builder, w') ∧
      w'.InPass s (entries.insert k .pending) := by
  have hpending :=
    (h.setEntry k .pending).countOnParent (s.contextWith entries) .builderInvocation
  refine ⟨_, ?_, hpending⟩
  rw [h.lookup_missed howns hv]
  simp [lookupEntry, hk]

/-- Overwriting the entry of a key in the namespace records the value. -/
theorem record_overwrite [BEq V] (h : w.InPass s entries) {k : K} (howns : s.cache.owns k = true)
    (v : V) : ∃ w', w.record s.context k v true = some (.ok (), w') ∧
      w'.InPass s (entries.insert k (.resolved v)) := by
  obtain ⟨cache, hcache, hsame⟩ := h.parent
  have hcheck : w.checkKey (s.contextWith entries) k = some (.ok ()) := by
    rw [← hsame] at howns
    simp [checkKey, hcache, Cache.checkKey, show cache.owns k = true from howns]
  have hset := h.setEntry k (.resolved v)
  obtain ⟨resolves, hrecorded⟩ : ∃ resolves, (s.contextWith entries).record k v true =
      .recorded (s.contextWith (entries.insert k (.resolved v))) resolves := by
    rw [Context.record, PassSetting.contextWith_entries, PassSetting.contextWith_setEntry]
    rcases entries.get? k with _ | ⟨_ | p | u⟩ <;> exact ⟨_, rfl⟩
  rw [record, h.context]
  simp only [bind, Option.bind_some, hcheck, hrecorded]
  cases resolves with
  | none => exact ⟨_, rfl, hset⟩
  | some cell => exact ⟨_, rfl, ⟨hset.context, hset.ledger⟩⟩

/-- A pass with no key in flight, of keys without a published value, is committed. -/
theorem commit_settled [BEq V] (h : w.InPass s entries)
    (hsettled : ∀ k, ¬ (s.contextWith entries).InFlight k)
    (hfresh : ∀ k e, entries.get? k = some e → s.cache.store.get? k = none) :
    ∃ w' cache', w.commit s.context = some (.ok true, w') ∧
      s.cache.Gains (s.contextWith entries) cache' ∧
      w'.ledger = Function.update s.ledger s.parent (some cache') := by
  obtain ⟨cache, hcache, hsame⟩ := h.parent
  have hcontra : ¬ w.Contradicts s.parent (s.contextWith entries) := by
    rintro ⟨k, u, v, hv, hu, -⟩
    rw [h.stored, hfresh k _ (Context.get?_eq_some_iff.1 hv)] at hu
    simp at hu
  have hpublish : (cache.publish (s.contextWith entries).recorded).1 = true := by
    rw [← any_conflicts_iff hcache, Bool.not_eq_true] at hcontra
    rw [Cache.publish_fst, hcontra, Bool.not_false]
  have hcommit := commit_of_settled h.context
    ((s.contextWith entries).refusal_eq_none_iff_settled.2 hsettled) rfl hcache
  rw [hpublish] at hcommit
  have hgains := Cache.gains_of_publish (Prod.ext hpublish rfl)
  refine ⟨_, _, hcommit, ?_, by rw [ledger_setCache hcache, h.ledger]⟩
  rw [← hsame]
  exact ⟨hgains.config, hgains.inFlight, hgains.store, hgains.failures⟩

end World.InPass

/-! ### Steps -/

section Steps

variable [DecidableEq N] [BEq V] [ToString K] (body : B → ContextId → K → Body K N V σ B)
  {w w' : World K N V σ B} {k : K} {stack : List (Frame K N V σ B)}

namespace Machine

variable {x : ContextId} {asker : Asker K N V σ B}

omit [DecidableEq N] [BEq V] in
/-- A request within a pass that leaves the world as it is asks for no placeholder. -/
theorem issued?_of_lookup_self {found : World.Lookup V B} (h : w.lookup x k = some (found, w)) :
    (⟨w, .ask x k asker, stack⟩ : Machine K N V σ B).issued? = none := by
  rw [issued?]
  rcases hk : w.keyState x k with _ | ⟨_ | p | v⟩ <;> simp [h, hk]

/-- A request that is answered calls no builder. -/
theorem step_ask_answered {answer : Except RequestError (Option V)}
    (h : w.lookup x k = some (.answered answer, w')) :
    (⟨w, .ask x k asker, stack⟩ : Machine K N V σ B).step body =
        some ⟨w', .reply x k answer asker, stack⟩ ∧
      (⟨w, .ask x k asker, stack⟩ : Machine K N V σ B).called? = none := by
  constructor
  · simp [step, stepAsk, h, move]
  · simp [called?, h]

/-- A request that is not answered calls the builder. -/
theorem step_ask_build {b : B} (h : w.lookup x k = some (.build b, w')) :
    (∃ thread, (⟨w, .ask x k asker, stack⟩ : Machine K N V σ B).step body =
        some ⟨w', .run (body b x k), ⟨x, k, thread, asker⟩ :: stack⟩) ∧
      (⟨w, .ask x k asker, stack⟩ : Machine K N V σ B).called? = some k := by
  constructor
  · exact ⟨_, by simp [step, stepAsk, h]; rfl⟩
  · simp [called?, h]

/-- An error that a builder returns is the answer to the request it was called for. -/
theorem step_return_error (w : World K N V σ B) (e : RequestError) (frame : Frame K N V σ B)
    (stack : List (Frame K N V σ B)) :
    (⟨w, .run (.done (.error e)), frame :: stack⟩ : Machine K N V σ B).step body =
      some ⟨w, .reply frame.context frame.key (.error e) frame.asker, stack⟩ := rfl

/-- A routine requests a key. -/
theorem step_build (w : World K N V σ B) (x : ContextId) (k : K)
    (next : Except RequestError (Option V) → Body K N V σ B) (stack : List (Frame K N V σ B)) :
    (⟨w, .run (.build x k next), stack⟩ : Machine K N V σ B).step body =
      some ⟨w, .ask x k (.routine next), stack⟩ := rfl

/-- A routine goes on with the answer to its request. -/
theorem step_reply_routine (w : World K N V σ B) (x : ContextId) (k : K)
    (answer : Except RequestError (Option V))
    (next : Except RequestError (Option V) → Body K N V σ B) (stack : List (Frame K N V σ B)) :
    (⟨w, .reply x k answer (.routine next), stack⟩ : Machine K N V σ B).step body =
      some ⟨w, .run (next answer), stack⟩ := rfl

end Machine

namespace World.InPass

variable {s : PassSetting K V σ B} {entries : Table K (Entry V)}

/-- What the pass knows it answers, and nothing changes. -/
theorem ask_known (h : w.InPass s entries) {v : V} (howns : s.cache.owns k = true)
    (hv : s.known? entries k = some v) (asker : Asker K N V σ B)
    (stack : List (Frame K N V σ B)) :
    (⟨w, .ask s.context k asker, stack⟩ : Machine K N V σ B).step body =
        some ⟨w, .reply s.context k (.ok (some v)) asker, stack⟩ ∧
      (⟨w, .ask s.context k asker, stack⟩ : Machine K N V σ B).called? = none ∧
      (⟨w, .ask s.context k asker, stack⟩ : Machine K N V σ B).issued? = none := by
  have hlookup := h.lookup_known howns hv
  obtain ⟨hstep, hcalled⟩ := Machine.step_ask_answered body hlookup
  exact ⟨hstep, hcalled, Machine.issued?_of_lookup_self hlookup⟩

/-- A pending key is answered with a fresh placeholder. -/
theorem ask_issue (h : w.InPass s entries) (howns : s.cache.owns k = true)
    (hv : s.cache.store.get? k = none) (hk : entries.get? k = some .pending)
    (hsome : s.placeholders.isSome = true) (asker : Asker K N V σ B)
    (stack : List (Frame K N V σ B)) :
    ∃ p w', (⟨w, .ask s.context k asker, stack⟩ : Machine K N V σ B).step body =
        some ⟨w', .reply s.context k (.ok (some p.standIn)) asker, stack⟩ ∧
      w'.InPass s (entries.insert k (.placeholderIssued p)) ∧
      (⟨w, .ask s.context k asker, stack⟩ : Machine K N V σ B).called? = none ∧
      (⟨w, .ask s.context k asker, stack⟩ : Machine K N V σ B).issued? = some k := by
  obtain ⟨p, w', hlookup, hpass⟩ := h.lookup_issue howns hv hk hsome
  obtain ⟨hstep, hcalled⟩ := Machine.step_ask_answered body hlookup
  refine ⟨p, w', hstep, hpass, hcalled, ?_⟩
  simp [Machine.issued?, h.keyState, hk, hlookup, hpass.keyState]

/-- A pending key is refused without a way to make placeholders. -/
theorem ask_refused (h : w.InPass s entries) (howns : s.cache.owns k = true)
    (hv : s.cache.store.get? k = none) (hk : entries.get? k = some .pending)
    (hnone : s.placeholders = none) (asker : Asker K N V σ B)
    (stack : List (Frame K N V σ B)) :
    (⟨w, .ask s.context k asker, stack⟩ : Machine K N V σ B).step body =
      some ⟨w, .reply s.context k
        (.error (.violation (.unresolvableReentry (toString k)))) asker, stack⟩ :=
  (Machine.step_ask_answered body (h.lookup_refused howns hv hk hnone)).1

/-- The builder is called for a key that was not seen before. -/
theorem ask_unseen (h : w.InPass s entries) (howns : s.cache.owns k = true)
    (hv : s.cache.store.get? k = none) (hk : entries.get? k = none) (asker : Asker K N V σ B)
    (stack : List (Frame K N V σ B)) :
    ∃ thread w', (⟨w, .ask s.context k asker, stack⟩ : Machine K N V σ B).step body =
        some ⟨w', .run (body s.builder s.context k), ⟨s.context, k, thread, asker⟩ :: stack⟩ ∧
      w'.InPass s (entries.insert k .pending) ∧
      (⟨w, .ask s.context k asker, stack⟩ : Machine K N V σ B).called? = some k ∧
      (⟨w, .ask s.context k asker, stack⟩ : Machine K N V σ B).issued? = none := by
  obtain ⟨w', hlookup, hpass⟩ := h.lookup_unseen howns hv hk
  obtain ⟨⟨thread, hstep⟩, hcalled⟩ := Machine.step_ask_build body hlookup
  refine ⟨thread, w', hstep, hpass, hcalled, ?_⟩
  simp [Machine.issued?, h.keyState, hk]

/-- The value that a builder returns is recorded, and is the answer to the request it was called
for. -/
theorem return_value (h : w.InPass s entries) (howns : s.cache.owns k = true) (v : V)
    (thread : ThreadId) (asker : Asker K N V σ B) (stack : List (Frame K N V σ B)) :
    ∃ w', (⟨w, .run (.done (.ok v)), ⟨s.context, k, thread, asker⟩ :: stack⟩ :
        Machine K N V σ B).step body =
        some ⟨w', .reply s.context k (.ok (some v)) asker, stack⟩ ∧
      w'.InPass s (entries.insert k (.resolved v)) := by
  obtain ⟨w', hrecord, hpass⟩ := h.record_overwrite howns v
  exact ⟨w', by simp [Machine.step, Machine.stepRun, hrecord, Machine.move], hpass⟩

end World.InPass

end Steps

end DerivationCache
