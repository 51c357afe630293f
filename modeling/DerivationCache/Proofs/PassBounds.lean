import DerivationCache.Proofs.WithinPass

/-!
# How a pass begins and ends

A request for a key that has neither a value nor a remembered failure claims the key and opens a
pass, in a fresh context of the cache. When the pass has an answer, it is committed or given up, the
claim is given back, and whoever made the request goes on with the outcome.

What lies between is not looked at here: a pass is entered with a world that is
`World.InPass` of a setting opened in the world of the request (`PassSetting.OpenedIn`), and left
from any world of that setting.

## Main results

* `World.createContext_opens`: a fresh context of a cache is the setting of a pass.
* `Machine.get_opens`: a request opens a pass, after two steps.
* `World.InPass.reply_publishes`, `World.InPass.reply_fails`: the two ends of a pass.
-/

namespace DerivationCache

variable {K N V σ B : Type}

/-- The setting is that of a pass that is opened in this world, for this cache. -/
structure PassSetting.OpenedIn (s : PassSetting K V σ B) (w : World K N V σ B) (c : CacheId) :
    Prop where
  parent : s.parent = c
  ledger : s.ledger = w.ledger
  placeholders : s.placeholders = s.cache.config.placeholders
  /-- Nobody else has the context. -/
  fresh : w.context? s.context = none

namespace World

variable {w : World K N V σ B} {c : CacheId} {cache : Cache K V σ B}

/-- A fresh context of a cache is the setting of a pass. -/
theorem createContext_opens {make : σ → B × σ} (hcache : w.ledger c = some cache)
    (hmake : cache.config.makeBuilder = some make) :
    ∃ (s : PassSetting K V σ B) (w' : World K N V σ B),
      w.createContext c = some (s.context, w') ∧ s.OpenedIn w c ∧ s.cache = cache ∧
      w'.InPass s .empty := by
  obtain ⟨current, hcurrent, rfl⟩ := cache_of_ledger hcache
  have hmake' : current.config.makeBuilder = some make := hmake
  let s : PassSetting K V σ B :=
    { context := ⟨w.contexts.size⟩, parent := c, builder := (make w.client).1
      placeholders := current.config.placeholders, ledger := w.ledger
      cache := current.resetCounters, ledger_parent := hcache }
  let made : World K N V σ B := { w with client := (make w.client).2 }
  have hcontext : (made.newContext (s.contextWith .empty)).2.context? s.context =
      some (s.contextWith .empty) :=
    (context?_newContext made _ _).trans (if_pos rfl)
  have hcreate : w.createContext c =
      some (s.context, (made.newContext (s.contextWith .empty)).2) := by
    rw [createContext, hcurrent, Option.map_some, hmake']
    rfl
  have hfresh : w.context? s.context = none := Array.getElem?_eq_none (Nat.le_refl _)
  exact ⟨s, _, hcreate, ⟨rfl, rfl, rfl, hfresh⟩, rfl, ⟨hcontext, rfl⟩⟩

/-- So is a fresh context of a cache that is made from outside, with nothing given in place of what
is configured. -/
theorem answer_createContext [DecidableEq K] [DecidableEq N] [BEq V] [ToString K]
    {make : σ → B × σ} (hcache : w.ledger c = some cache)
    (hmake : cache.config.makeBuilder = some make) :
    ∃ (s : PassSetting K V σ B) (w' : World K N V σ B),
      w.answer (.createContext c none none) = some (s.context, w') ∧ s.OpenedIn w c ∧
      s.cache = cache ∧ w'.InPass s .empty := by
  obtain ⟨s, w₁, hcreate, hopened, hs, hpass⟩ := createContext_opens hcache hmake
  refine ⟨s, w₁.setContext s.context (s.contextWith .empty), ?_, hopened, hs,
    context?_setContext_self hpass.context _, hpass.ledger⟩
  rw [answer]
  simp only [hcreate, bind, Option.bind_some, hpass.context]
  rfl

end World

variable [DecidableEq K]

/-! ### Requests that have to derive -/

namespace Cache

/-- A key that has to be derived, and can be: it lies in the namespace, has neither a value nor a
remembered failure, is not being derived already, and there is a builder. -/
structure Underived (c : Cache K V σ B) (k : K) : Prop where
  owns : c.owns k = true
  unpublished : c.store.get? k = none
  unmemoized : c.config.cachesFailures = true → c.failures.get? k = none
  free : c.inFlight.get? k = none
  derivable : c.config.makeBuilder.isSome = true

variable {c : Cache K V σ B} {k : K}

/-- The counters do not matter for it. -/
theorem Underived.congr {c' : Cache K V σ B} (h : c.Underived k)
    (hsame : c'.resetCounters = c.resetCounters) : c'.Underived k := by
  have hconfig : c'.config = c.config := congrArg (·.config) hsame
  have hstore : c'.store = c.store := congrArg (·.store) hsame
  have hfailures : c'.failures = c.failures := congrArg (·.failures) hsame
  have hinFlight : c'.inFlight = c.inFlight := congrArg (·.inFlight) hsame
  refine ⟨?_, ?_, ?_, ?_, ?_⟩
  · rw [Cache.owns, hconfig]
    exact h.owns
  · rw [hstore, h.unpublished]
  · rw [hconfig, hfailures]
    exact h.unmemoized
  · rw [hinFlight, h.free]
  · rw [hconfig]
    exact h.derivable

/-- Nothing is replayed for a key without a remembered failure. -/
theorem replay_of_forgotten (hmemo : c.config.cachesFailures = true → c.failures.get? k = none) :
    c.replay k = (none, c) := by
  rw [replay]
  split
  · rename_i hcaches
    rw [hmemo hcaches]
  · rfl

/-- A request for a published key is answered with its value. -/
theorem request_published [ToString K] {v : V} (howns : c.owns k = true)
    (hstore : c.store.get? k = some v) :
    ∃ c', c.request k = (some (.ok v), c') ∧ c'.resetCounters = c.resetCounters := by
  have hcheck : c.checkKey k = .ok () := if_pos howns
  have hfound : (c.count .getCall).store.get? k = some v := hstore
  refine ⟨(c.count .getCall).count .getHit, ?_, rfl⟩
  rw [request, hcheck]
  simp only [hfound]

/-- A request for a key with a remembered failure is answered with this failure. -/
theorem request_remembered [ToString K] {f : Failure} (howns : c.owns k = true)
    (hstore : c.store.get? k = none) (hcaches : c.config.cachesFailures = true)
    (hmemo : c.failures.get? k = some f) :
    ∃ c', c.request k = (some (.error (.failure f)), c') ∧
      c'.resetCounters = c.resetCounters := by
  have hcheck : c.checkKey k = .ok () := if_pos howns
  have hmissed : (c.count .getCall).store.get? k = none := hstore
  have hreplay : (c.count .getCall).replay k =
      (some f, (c.count .getCall).count .failureReplay) := by
    have hcaches' : (c.count .getCall).config.cachesFailures = true := hcaches
    have hmemo' : (c.count .getCall).failures.get? k = some f := hmemo
    rw [replay, if_pos hcaches', hmemo']
  refine ⟨(c.count .getCall).count .failureReplay, ?_, rfl⟩
  rw [request, hcheck]
  simp only [hmissed, hreplay]

/-- A request for a key that has to be derived is only counted. -/
theorem request_missed [ToString K] (h : c.Underived k) :
    c.request k = (none, (c.count .getCall).count .getMiss) := by
  have hcheck : c.checkKey k = .ok () := if_pos h.owns
  have hreplay : (c.count .getCall).replay k = (none, c.count .getCall) :=
    replay_of_forgotten h.unmemoized
  have hreader : ¬ (c.count .getCall).isReadOnly = true := by
    rw [isReadOnly, Option.isNone_iff_eq_none, ← ne_eq, ← Option.isSome_iff_ne_none]
    exact h.derivable
  have hmissed : (c.count .getCall).store.get? k = none := h.unpublished
  rw [request, hcheck]
  simp only [hmissed, hreplay]
  exact if_neg hreader

/-- Nothing has changed for such a key when it was claimed. -/
theorem recheck_missed (hstore : c.store.get? k = none)
    (hmemo : c.config.cachesFailures = true → c.failures.get? k = none) :
    c.recheck k = (none, c) := by
  rw [recheck, hstore]
  simp only [replay_of_forgotten hmemo]

/-- What is remembered does not depend on the counters. -/
theorem remember_resetCounters (c : Cache K V σ B) (k : K) (e : RequestError) :
    (c.remember k e).resetCounters = c.resetCounters.remember k e := by
  cases e with
  | failure f => exact apply_ite resetCounters _ _ _
  | violation v => rfl
  | conflict key => rfl

/-- Remembering a failure leaves the configuration as it is. -/
theorem remember_config (c : Cache K V σ B) (k : K) (e : RequestError) :
    (c.remember k e).config = c.config := by
  cases e with
  | failure f => rw [remember]; split <;> rfl
  | violation v => rfl
  | conflict key => rfl

/-- Remembering a failure leaves the claims as they are. -/
theorem remember_inFlight (c : Cache K V σ B) (k : K) (e : RequestError) :
    (c.remember k e).inFlight = c.inFlight := by
  cases e with
  | failure f => rw [remember]; split <;> rfl
  | violation v => rfl
  | conflict key => rfl

/-- The cache with a key claimed. -/
def claimed (c : Cache K V σ B) (k : K) (thread : ThreadId) : Cache K V σ B :=
  { c with inFlight := c.inFlight.insert k thread }

/-- A claim that is given back leaves no trace. -/
theorem release_claimed (h : c.inFlight.get? k = none) (thread : ThreadId) :
    (c.claimed k thread).release k = c := by
  rw [release, claimed, Table.erase_insert h]

/-- Claims and failures are kept apart. -/
theorem remember_claimed (c : Cache K V σ B) (k : K) (thread : ThreadId) (e : RequestError) :
    (c.claimed k thread).remember k e = (c.remember k e).claimed k thread := by
  cases e with
  | failure f =>
      by_cases h : (c.config.cachesFailures && !c.failures.contains k) = true <;>
        simp [remember, claimed, h]
  | violation v => rfl
  | conflict key => rfl

/-- It leaves no trace but counters, if counters have changed meanwhile. -/
theorem release_resetCounters {c' : Cache K V σ B} {thread : ThreadId}
    (h : c.inFlight.get? k = none)
    (hsame : c'.resetCounters = (c.claimed k thread).resetCounters) :
    (c'.release k).resetCounters = c.resetCounters := by
  have hrelease : (c'.release k).resetCounters = c'.resetCounters.release k := rfl
  rw [hrelease, hsame]
  exact release_claimed (c := c.resetCounters) h thread

/-- The keys that can be claimed are those that nobody holds. -/
theorem claim_eq_claimed_iff {thread : ThreadId} {taken : Cache K V σ B} :
    c.claim k thread = .claimed taken ↔ c.inFlight.get? k = none ∧ c.claimed k thread = taken := by
  rw [claim, claimed]
  cases hholder : c.inFlight.get? k with
  | none => simp
  | some owner => by_cases howner : owner = thread <;> simp [howner]

end Cache

/-- The setting is that of the pass that a request for the key opens, in a cache with these
contents. -/
structure PassSetting.OpenedFor (s : PassSetting K V σ B) (w : World K N V σ B) (c : CacheId)
    (cache : Cache K V σ B) (k : K) (thread : ThreadId) : Prop where
  parent : s.parent = c
  /-- Nobody else has the context. -/
  fresh : w.context? s.context = none
  placeholders : s.placeholders = cache.config.placeholders
  claimed : s.cache = cache.resetCounters.claimed k thread
  ledger : s.ledger = Function.update w.ledger c (some (cache.resetCounters.claimed k thread))

namespace PassSetting.OpenedFor

variable {s : PassSetting K V σ B} {w w' : World K N V σ B} {c : CacheId}
  {cache cache' : Cache K V σ B} {k : K} {thread : ThreadId}

/-- After such a pass was published, the cache has gained what was recorded, no failure is
remembered that was not before, and the other caches are as they were. -/
theorem after_publication (hs : s.OpenedFor w c cache k thread) (hcache : w.cache? c = some cache)
    {x : Context K V σ B} (hgains : s.cache.Gains x cache')
    (hledger : w'.ledger = Function.update s.ledger s.parent (some (cache'.release k))) :
    (∀ l, w'.stored c l = (w.stored c l).or (x.get? l)) ∧
      (∀ l, w'.remembered c l = none ∨ w'.remembered c l = w.remembered c l) ∧
      ∀ d, d ≠ c → w'.ledger d = w.ledger d := by
  have hafter : w'.ledger c = some (cache'.release k) := by
    rw [hledger, hs.parent, Function.update_self]
  rw [hs.claimed] at hgains
  refine ⟨fun l => ?_, fun l => ?_, fun d hd => ?_⟩
  · rw [World.stored_eq_ledger, hafter, World.stored_of_cache? hcache]
    exact hgains.store l
  · have hfailures := hgains.failures l
    rw [World.remembered_eq_ledger, hafter, World.remembered_of_cache? hcache]
    split at hfailures
    · exact Or.inl hfailures
    · exact Or.inr hfailures
  · rw [hledger, hs.ledger, hs.parent, Function.update_idem, Function.update_of_ne hd]

/-- After such a pass was given up with an error that is not remembered, every cache is as it was
but for its counters. -/
theorem after_error (hs : s.OpenedFor w c cache k thread) (hcache : w.cache? c = some cache)
    (hfree : cache.inFlight.get? k = none) {e : RequestError} (he : ∀ f, e ≠ .failure f)
    (hledger : w'.ledger =
      Function.update s.ledger s.parent (some ((s.cache.remember k e).release k))) :
    w'.ledger = w.ledger := by
  have hbefore : w.ledger c = some cache.resetCounters := World.ledger_of_cache? hcache
  have hforgotten : s.cache.remember k e = s.cache := by
    cases e with
    | failure f => exact absurd rfl (he f)
    | violation v => rfl
    | conflict key => rfl
  have hreleased : s.cache.release k = cache.resetCounters := by
    rw [hs.claimed]
    exact Cache.release_claimed (c := cache.resetCounters) hfree thread
  rw [hledger, hs.ledger, hs.parent, Function.update_idem, hforgotten, hreleased, ← hbefore,
    Function.update_eq_self]

end PassSetting.OpenedFor

section Steps

variable [DecidableEq N] [BEq V] [ToString K] (body : B → ContextId → K → Body K N V σ B)
  {w w' : World K N V σ B} {c : CacheId} {cache : Cache K V σ B} {k : K}
  {next : Except RequestError V → Body K N V σ B} {stack : List (Frame K N V σ B)}

namespace Machine

/-- A request that a cache answers at once. -/
theorem get_answers {answer : Except RequestError V} {cache' : Cache K V σ B}
    (hcache : w.cache? c = some cache) (hrequest : cache.request k = (some answer, cache'))
    (next : Except RequestError V → Body K N V σ B) (stack : List (Frame K N V σ B)) :
    Path body ⟨w, .run (.get c k next), stack⟩
      [⟨w, .run (.get c k next), stack⟩,
        ⟨w.setCache c cache', .deliver c k (.returned answer) (.caller next), stack⟩]
      ⟨w.setCache c cache', .run (next answer), stack⟩ := by
  refine .step ?_ (.one rfl)
  simp [step, stepRun, World.onCache, hcache, hrequest, goto]

omit [DecidableEq N] [BEq V] in
/-- A thread that reaches for a key which has to be derived claims it. -/
theorem claim_underived {m : Machine K N V σ B} (hcache : m.world.cache? c = some cache)
    (hk : cache.Underived k) (thread : ThreadId) (receiver : Receiver K N V σ B) :
    m.claim c k thread receiver =
      some (m.move (m.world.setCache c (cache.claimed k thread))
        (.attempt ⟨c, k, thread, passLimit⟩ receiver)) := by
  have hclaim : cache.claim k thread = .claimed (cache.claimed k thread) :=
    Cache.claim_eq_claimed_iff.2 ⟨hk.free, rfl⟩
  have hrecheck : (cache.claimed k thread).recheck k = (none, cache.claimed k thread) :=
    Cache.recheck_missed hk.unpublished hk.unmemoized
  simp only [claim, hcache, bind, Option.bind_some, hclaim, hrecheck, pure]

/-- A request for a key that has to be derived claims the key. -/
theorem step_get_claims (hcache : w.cache? c = some cache) (hk : cache.Underived k)
    (next : Except RequestError V → Body K N V σ B) (stack : List (Frame K N V σ B)) :
    ∃ w' thread,
      (⟨w, .run (.get c k next), stack⟩ : Machine K N V σ B).step body =
        some ⟨w', .attempt ⟨c, k, thread, passLimit⟩ (.caller next), stack⟩ ∧
      w'.ledger =
        Function.update w.ledger c (some (cache.resetCounters.claimed k thread)) ∧
      w'.contexts = w.contexts := by
  have hrequest := Cache.request_missed hk
  let missed := (cache.count .getCall).count .getMiss
  have hsame : missed.resetCounters = cache.resetCounters := rfl
  let m : Machine K N V σ B := ⟨w.setCache c missed, .run (.get c k next), stack⟩
  have hmissed : m.world.cache? c = some missed := World.cache?_setCache_self hcache _
  have hclaim := claim_underived hmissed (hk.congr hsame) m.thread (.caller next)
  refine ⟨m.world.setCache c (missed.claimed k m.thread), m.thread, ?_, ?_, rfl⟩
  · simp only [step, stepRun, World.onCache, hcache, Option.map_some, hrequest, bind,
      Option.bind_some]
    exact hclaim
  · rw [World.ledger_setCache hmissed, World.ledger_setCache hcache, Function.update_idem]
    have hclaimed : (missed.claimed k m.thread).resetCounters =
        missed.resetCounters.claimed k m.thread := rfl
    rw [hclaimed, hsame]

/-- An attempt with a pass left opens a pass. -/
theorem step_attempt_opens {make : σ → B × σ} (hcache : w.ledger c = some cache)
    (hmake : cache.config.makeBuilder = some make) (thread : ThreadId) (left : Nat)
    (receiver : Receiver K N V σ B) (stack : List (Frame K N V σ B)) :
    ∃ (s : PassSetting K V σ B) (w' : World K N V σ B),
      (⟨w, .attempt ⟨c, k, thread, left + 1⟩ receiver, stack⟩ : Machine K N V σ B).step body =
        some ⟨w', .ask s.context k (.pass ⟨c, k, thread, left⟩ receiver), stack⟩ ∧
      s.OpenedIn w c ∧ s.cache = cache ∧ w'.InPass s .empty := by
  obtain ⟨current, hcurrent, hsame⟩ := World.cache_of_ledger hcache
  have hledger : (w.setCache c (current.count .pass)).ledger = w.ledger :=
    World.ledger_setCache_of_eq hcurrent rfl
  have hcounted : (w.setCache c (current.count .pass)).ledger c = some cache := by
    rw [hledger, hcache]
  obtain ⟨s, w', hcreate, hopened, hs, hpass⟩ := World.createContext_opens hcounted hmake
  refine ⟨s, w', ?_, ⟨hopened.parent, hopened.ledger.trans hledger, hopened.placeholders,
    hopened.fresh⟩, hs, hpass⟩
  simp [step, stepAttempt, World.onCache, hcurrent, hcreate, move]

/-- A request for a key that has to be derived claims the key and opens a pass. -/
theorem get_opens (hcache : w.cache? c = some cache) (hk : cache.Underived k)
    (next : Except RequestError V → Body K N V σ B) (stack : List (Frame K N V σ B)) :
    ∃ (s : PassSetting K V σ B) (w₁ w' : World K N V σ B) (thread : ThreadId) (left : Nat),
      Path body ⟨w, .run (.get c k next), stack⟩
        [⟨w, .run (.get c k next), stack⟩,
          ⟨w₁, .attempt ⟨c, k, thread, left + 1⟩ (.caller next), stack⟩]
        ⟨w', .ask s.context k (.pass ⟨c, k, thread, left⟩ (.caller next)), stack⟩ ∧
      w'.InPass s .empty ∧ s.OpenedFor w c cache k thread := by
  obtain ⟨make, hmake⟩ := Option.isSome_iff_exists.1 hk.derivable
  obtain ⟨w₁, thread, hclaims, hledger, hcontexts⟩ := step_get_claims body hcache hk next stack
  have hclaimed : w₁.ledger c = some (cache.resetCounters.claimed k thread) := by
    rw [hledger, Function.update_self]
  obtain ⟨s, w', hopens, hopened, hs, hpass⟩ :=
    step_attempt_opens body (k := k) hclaimed hmake thread 3 (.caller next) stack
  have hfresh : w.context? s.context = none := by
    rw [← hopened.fresh, World.context?, World.context?, hcontexts]
  have hplaceholders : s.placeholders = cache.config.placeholders := by
    rw [hopened.placeholders, hs]
    rfl
  exact ⟨s, w₁, w', thread, 3, .step hclaims (.one hopens), hpass, hopened.parent, hfresh,
    hplaceholders, hs, hopened.ledger.trans hledger⟩

end Machine

/-! ### The end of a pass -/

namespace World.InPass

variable {s : PassSetting K V σ B} {entries : Table K (Entry V)} {p : Pass K}

omit [DecidableEq N] [BEq V] [ToString K] in
/-- A claimed request that ends gives its claim back and delivers its outcome. -/
theorem settle (hledger : w.ledger p.cache = some cache) (outcome : Outcome V)
    (receiver : Receiver K N V σ B) (m : Machine K N V σ B) (hm : m.world = w) :
    ∃ w', m.settle p outcome receiver =
        some (m.move w' (.deliver p.cache p.key outcome receiver)) ∧
      w'.ledger = Function.update w.ledger p.cache (some (cache.release p.key)) := by
  obtain ⟨current, hcurrent, rfl⟩ := cache_of_ledger hledger
  refine ⟨w.setCache p.cache (current.release p.key), ?_, ledger_setCache hcurrent _⟩
  rw [Machine.settle, hm, onCache, hcurrent]
  rfl

/-- A pass whose key has a value, with no key in flight, is published. -/
theorem reply_publishes (h : w.InPass s entries) (hp : p.cache = s.parent)
    (hsettled : ∀ k, ¬ (s.contextWith entries).InFlight k)
    (hfresh : ∀ k e, entries.get? k = some e → s.cache.store.get? k = none) (v : V)
    (next : Except RequestError V → Body K N V σ B) (stack : List (Frame K N V σ B)) :
    ∃ w' cache',
      Machine.Path body ⟨w, .reply s.context k (.ok (some v)) (.pass p (.caller next)), stack⟩
        [⟨w, .reply s.context k (.ok (some v)) (.pass p (.caller next)), stack⟩,
          ⟨w', .deliver p.cache p.key (.returned (.ok v)) (.caller next), stack⟩]
        ⟨w', .run (next (.ok v)), stack⟩ ∧
      s.cache.Gains (s.contextWith entries) cache' ∧
      w'.ledger = Function.update s.ledger s.parent (some (cache'.release p.key)) := by
  obtain ⟨w₁, cache', hcommit, hgains, hledger⟩ := h.commit_settled hsettled hfresh
  have hparent : w₁.ledger p.cache = some cache' := by
    rw [hledger, hp, Function.update_self]
  let m : Machine K N V σ B :=
    ⟨w₁, .reply s.context k (.ok (some v)) (.pass p (.caller next)), stack⟩
  obtain ⟨w', hsettle, hw'⟩ := settle hparent (.returned (.ok v)) (.caller next) m rfl
  refine ⟨w', cache', .step ?_ (.one rfl), hgains, ?_⟩
  · simpa [Machine.step, Machine.stepReply, hcommit, m, Machine.move] using hsettle
  · rw [hw', hledger, hp, Function.update_idem]

/-- A pass whose key has failed is given up, the failure may be remembered, and the claim is given
back. -/
theorem step_reply_fails (h : w.InPass s entries) (hp : p.cache = s.parent) (e : RequestError)
    (receiver : Receiver K N V σ B) (stack : List (Frame K N V σ B)) :
    ∃ w', (⟨w, .reply s.context k (.error e) (.pass p receiver), stack⟩ :
        Machine K N V σ B).step body =
        some ⟨w', .deliver p.cache p.key (.returned (.error e)) receiver, stack⟩ ∧
      w'.ledger =
        Function.update s.ledger s.parent (some ((s.cache.remember p.key e).release p.key)) := by
  obtain ⟨current, hcurrent, hsame⟩ := h.parent
  have hremember : (current.remember p.key e).resetCounters = s.cache.remember p.key e := by
    rw [Cache.remember_resetCounters, hsame]
  have hledger : (w.setCache p.cache (current.remember p.key e)).ledger =
      Function.update s.ledger p.cache (some (s.cache.remember p.key e)) := by
    rw [hp, ledger_setCache hcurrent, h.ledger, hremember]
  have hparent : (w.setCache p.cache (current.remember p.key e)).ledger p.cache =
      some (s.cache.remember p.key e) := by
    rw [hledger, Function.update_self]
  let m : Machine K N V σ B := ⟨w.setCache p.cache (current.remember p.key e),
    .reply s.context k (.error e) (.pass p receiver), stack⟩
  obtain ⟨w', hsettle, hw'⟩ := settle hparent (.returned (.error e)) receiver m rfl
  refine ⟨w', ?_, ?_⟩
  · simpa [Machine.step, Machine.stepReply, onCache, hp, hcurrent, m, Machine.move] using hsettle
  · rw [hw', hledger, hp, Function.update_idem]

/-- So the routine that made the request goes on with the error. -/
theorem reply_fails (h : w.InPass s entries) (hp : p.cache = s.parent) (e : RequestError)
    (next : Except RequestError V → Body K N V σ B) (stack : List (Frame K N V σ B)) :
    ∃ w',
      Machine.Path body ⟨w, .reply s.context k (.error e) (.pass p (.caller next)), stack⟩
        [⟨w, .reply s.context k (.error e) (.pass p (.caller next)), stack⟩,
          ⟨w', .deliver p.cache p.key (.returned (.error e)) (.caller next), stack⟩]
        ⟨w', .run (next (.error e)), stack⟩ ∧
      w'.ledger =
        Function.update s.ledger s.parent (some ((s.cache.remember p.key e).release p.key)) := by
  obtain ⟨w', hstep, hledger⟩ := h.step_reply_fails body (k := k) hp e (.caller next) stack
  exact ⟨w', .step hstep (.one rfl), hledger⟩

end World.InPass

end Steps

end DerivationCache
