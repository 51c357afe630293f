import DerivationCache.Proofs.CommitDecision
import DerivationCache.Proofs.PassBounds

/-!
# Accounts

The account of a key is all that a cache has on record about it: the published value, the
remembered failure, and the thread that is deriving it. Three kinds of change are seen in accounts.
A key is filled when a value is published for it, and its failure is forgotten with that
(`Account.Fills`). A failure is remembered, or forgotten, by itself. A claim is taken, or given
back.

This module says what the operations do to accounts, and to the number of threads started so far.
Claims and remembered failures are the business of requests for derived values alone, so all else
at most fills keys (`World.Fills`), or forgets failures because it is told to.

## Main results

* `Cache.request_reads`: what a request comes to before its key is claimed, and that it only counts.
* `World.answer_fills`, `World.answer_clearFailures`: what a routine requests does to accounts.
* `World.commit_fills`: a commit at most fills keys.
-/

namespace DerivationCache

variable {K N V σ B : Type}

/-- What a cache has on record about one key. -/
structure Account (V : Type) where
  value : Option V := none
  failure : Option Failure := none
  /-- The thread that holds the claim of the key. -/
  holder : Option ThreadId := none

/-- A value is published for a key that had none, or nothing happens to the key. -/
inductive Account.Fills (a : Account V) : Account V → Prop
  | same : Fills a a
  | filled (v : V) (empty : a.value = none) : Fills a { a with value := some v, failure := none }

namespace Account.Fills

variable {a b : Account V} (h : a.Fills b)

include h

/-- A key that is filled keeps its holder. -/
theorem holder_eq : b.holder = a.holder := by
  cases h <;> rfl

/-- No failure is remembered. -/
theorem failure_source {f : Failure} (hf : b.failure = some f) : b = a := by
  cases h with
  | same => rfl
  | filled v empty => simp at hf

/-- A failure is forgotten only when a value is published. -/
theorem failure_lasts : b.failure = a.failure ∨ (a.value = none ∧ ∃ v, b.value = some v) := by
  cases h with
  | same => exact Or.inl rfl
  | filled v empty => exact Or.inr ⟨empty, v, rfl⟩

end Account.Fills

/-! ### The account of a cache -/

namespace Cache

variable [DecidableEq K]

/-- What the tables of a cache say about a key. -/
def account (c : Cache K V σ B) (k : K) : Account V where
  value := c.store.get? k
  failure := c.failures.get? k
  holder := c.inFlight.get? k

/-- The failure that a request for the key is answered with, if the key has no value. -/
def replayable (c : Cache K V σ B) (k : K) : Option Failure :=
  if c.config.cachesFailures then c.failures.get? k else none

variable {c c' : Cache K V σ B}

/-- Counters are no part of an account. -/
theorem account_of_resetCounters (h : c'.resetCounters = c.resetCounters) :
    c'.account = c.account := by
  have hsame : c'.resetCounters.account = c.resetCounters.account := congrArg account h
  exact hsame

/-- Counters have no influence on what is replayed. -/
theorem replayable_of_resetCounters (h : c'.resetCounters = c.resetCounters) (k : K) :
    c'.replayable k = c.replayable k := by
  have hsame : c'.resetCounters.replayable k = c.resetCounters.replayable k := by rw [h]
  exact hsame

/-- What is replayed is the failure that can be. -/
theorem replay_eq (c : Cache K V σ B) (k : K) :
    (c.replay k).1 = c.replayable k ∧ (c.replay k).2.resetCounters = c.resetCounters := by
  rw [replay, replayable]
  split
  · split
    · rename_i hfailure
      exact ⟨hfailure.symm, rfl⟩
    · rename_i hnone
      exact ⟨hnone.symm, rfl⟩
  · exact ⟨rfl, rfl⟩

/-- What a request comes to before its key is claimed. -/
inductive Reads [ToString K] (c : Cache K V σ B) (k : K) :
    Option (Except RequestError V) → Prop
  | foreign (foreign : c.owns k = false) :
      Reads c k (some (.error (.violation (.foreignKey (toString k)))))
  | published (v : V) (stored : c.store.get? k = some v) : Reads c k (some (.ok v))
  | replayed (f : Failure) (unpublished : c.store.get? k = none)
      (replayable : c.replayable k = some f) : Reads c k (some (.error (.failure f)))
  | readOnly (builder : c.config.makeBuilder = none) :
      Reads c k (some (.error (.violation (.readOnlyCache (toString k)))))
  | missed (owns : c.owns k = true) (unpublished : c.store.get? k = none)
      (unreplayable : c.replayable k = none) (builder : c.config.makeBuilder.isSome = true) :
      Reads c k none

/-- The counters do not matter for what a request comes to. -/
theorem Reads.congr [ToString K] {k : K} {answer : Option (Except RequestError V)}
    (h : c'.Reads k answer) (hsame : c'.resetCounters = c.resetCounters) : c.Reads k answer := by
  have hconfig : c'.config = c.config := congrArg (·.config) hsame
  have hstore : c'.store = c.store := congrArg (·.store) hsame
  have howns : c'.resetCounters.owns k = c.resetCounters.owns k := by rw [hsame]
  have hreplayable : c'.replayable k = c.replayable k := replayable_of_resetCounters hsame k
  cases h with
  | foreign foreign => exact .foreign (howns.symm.trans foreign)
  | published v stored => exact .published v (by rw [← hstore, stored])
  | replayed f unpublished replayable =>
      exact .replayed f (by rw [← hstore, unpublished]) (by rw [← hreplayable, replayable])
  | readOnly builder => exact .readOnly (by rw [← hconfig, builder])
  | missed owns unpublished unreplayable builder =>
      exact .missed (howns.symm.trans owns) (by rw [← hstore, unpublished])
        (by rw [← hreplayable, unreplayable]) (by rw [← hconfig, builder])

/-- A request reads the cache, and only counts. -/
theorem request_reads [ToString K] (c : Cache K V σ B) (k : K) :
    c.Reads k (c.request k).1 ∧ (c.request k).2.resetCounters = c.resetCounters := by
  have hcounted : (c.count .getCall).resetCounters = c.resetCounters := rfl
  cases howns : c.owns k with
  | false =>
      have hcheck : c.checkKey k = .error (.foreignKey (toString k)) := by simp [checkKey, howns]
      rw [request, hcheck]
      exact ⟨.foreign howns, rfl⟩
  | true =>
      have hcheck : c.checkKey k = .ok () := if_pos howns
      rw [request, hcheck]
      cases hstore : c.store.get? k with
      | some v =>
          have hfound : (c.count .getCall).store.get? k = some v := hstore
          simp only [hfound]
          exact ⟨.published v hstore, rfl⟩
      | none =>
          have hmissed : (c.count .getCall).store.get? k = none := hstore
          obtain ⟨hreplay, hsame⟩ := (c.count .getCall).replay_eq k
          rcases hr : (c.count .getCall).replay k with ⟨_ | f, c₁⟩
          · rw [hr] at hreplay hsame
            have hunreplayable : c.replayable k = none := hreplay.symm
            have hconfig : c₁.config = c.config := congrArg (·.config) hsame
            simp only [hmissed, hr]
            split
            · rename_i hreader
              refine ⟨.readOnly ?_, hsame.trans hcounted⟩
              rw [← hconfig]
              exact Option.isNone_iff_eq_none.1 hreader
            · rename_i hreader
              refine ⟨.missed howns hstore hunreplayable ?_, hsame.trans hcounted⟩
              rw [← hconfig, Option.isSome_iff_ne_none]
              exact fun hnone => hreader (Option.isNone_iff_eq_none.2 hnone)
          · rw [hr] at hreplay hsame
            have hreplayable : c.replayable k = some f := hreplay.symm
            simp only [hmissed, hr]
            exact ⟨.replayed f hstore hreplayable, hsame.trans hcounted⟩

/-- Looking again after the claim finds a value, a failure, or that nothing has changed. -/
theorem recheck_reads (c : Cache K V σ B) (k : K) :
    ((∃ v, (c.recheck k).1 = some (.ok v) ∧ c.store.get? k = some v) ∨
      (∃ f, (c.recheck k).1 = some (.error (.failure f)) ∧ c.store.get? k = none ∧
        c.replayable k = some f) ∨
      ((c.recheck k).1 = none ∧ c.store.get? k = none ∧ c.replayable k = none)) ∧
    (c.recheck k).2.resetCounters = c.resetCounters := by
  rw [recheck]
  cases hstore : c.store.get? k with
  | some v => exact ⟨Or.inl ⟨v, rfl, rfl⟩, rfl⟩
  | none =>
      obtain ⟨hreplay, hsame⟩ := c.replay_eq k
      rcases hr : c.replay k with ⟨_ | f, c₁⟩
      · rw [hr] at hreplay hsame
        exact ⟨Or.inr (Or.inr ⟨rfl, rfl, hreplay.symm⟩), hsame⟩
      · rw [hr] at hreplay hsame
        exact ⟨Or.inr (Or.inl ⟨f, rfl, rfl, hreplay.symm⟩), hsame⟩

/-- A failure is remembered if failures are remembered at all and the key has none yet. -/
theorem remember_account (c : Cache K V σ B) (k : K) (f : Failure) (l : K) :
    (c.remember k (.failure f)).account l =
      if l = k ∧ c.config.cachesFailures = true ∧ c.failures.get? k = none then
        { c.account l with failure := some f }
      else c.account l := by
  rw [remember]
  by_cases hnew : c.config.cachesFailures = true ∧ c.failures.get? k = none
  · have hcond : (c.config.cachesFailures && !c.failures.contains k) = true := by
      simp [Table.contains, hnew.1, hnew.2]
    rw [if_pos hcond]
    by_cases hlk : l = k
    · rw [if_pos ⟨hlk, hnew⟩]
      simp [account, hlk]
    · rw [if_neg fun h => hlk h.1]
      simp [account, Ne.symm hlk]
  · have hcond : ¬ (c.config.cachesFailures && !c.failures.contains k) = true := by
      simpa [Table.contains, Option.ne_none_iff_isSome] using hnew
    rw [if_neg hcond, if_neg fun h => hnew h.2]

/-- To give a claim back changes the account of its key alone. -/
theorem release_account (c : Cache K V σ B) (k l : K) :
    (c.release k).account l =
      if l = k then { c.account l with holder := none } else c.account l := by
  by_cases hlk : l = k
  · simp [account, release, hlk]
  · simp [account, release, hlk, Ne.symm hlk]

/-- To take a claim changes the account of its key alone. -/
theorem claimed_account (c : Cache K V σ B) (k : K) (thread : ThreadId) (l : K) :
    (c.claimed k thread).account l =
      if l = k then { c.account l with holder := some thread } else c.account l := by
  by_cases hlk : l = k
  · simp [account, claimed, hlk]
  · simp [account, claimed, hlk, Ne.symm hlk]

/-- Clearing the failures forgets that of every key, and nothing else. -/
theorem clearFailures_account (c : Cache K V σ B) (k : K) :
    c.clearFailures.account k = { c.account k with failure := none } := rfl

variable [BEq V]

/-- A direct insertion fills the key if it has no value. -/
theorem insert_fills [ToString K] (c : Cache K V σ B) (k : K) (v : V) (l : K) :
    (c.account l).Fills ((c.insert k v).2.account l) := by
  rw [insert]
  split
  · exact .same
  · split
    · exact .same
    · rename_i hnone
      by_cases hkl : k = l
      · subst hkl
        have hfilled : ({ c with store := c.store.insert k v, failures := c.failures.erase k } :
            Cache K V σ B).account k = { c.account k with value := some v, failure := none } := by
          simp [account]
        rw [hfilled]
        exact .filled v hnone
      · have hsame : ({ c with store := c.store.insert k v, failures := c.failures.erase k } :
            Cache K V σ B).account l = c.account l := by
          simp [account, hkl]
        rw [hsame]
        exact .same

/-- Publication fills the recorded keys that have no value. -/
theorem publish_fills {x : Context K V σ B} {b : Bool} (h : c.publish x.recorded = (b, c'))
    (k : K) : (c.account k).Fills (c'.account k) := by
  cases b with
  | false =>
      rw [account_of_resetCounters (publish_false_resetCounters h)]
      exact .same
  | true =>
      have hgains := gains_of_publish h
      have hstore := hgains.store k
      have hfailures := hgains.failures k
      by_cases hfresh : c.store.get? k = none ∧ (x.get? k).isSome = true
      · obtain ⟨v, hv⟩ := Option.isSome_iff_exists.1 hfresh.2
        have hfilled : c'.account k = { c.account k with value := some v, failure := none } := by
          simp [account, hstore, hfailures, hgains.inFlight, hfresh.1, hv]
        rw [hfilled]
        exact .filled v hfresh.1
      · have hsame : c'.account k = c.account k := by
          rw [if_neg hfresh] at hfailures
          have hkept : c'.store.get? k = c.store.get? k := by
            rw [hstore]
            cases hv : c.store.get? k with
            | some v => rfl
            | none =>
                rw [hv, Option.isSome_iff_ne_none] at hfresh
                simpa using hfresh
          simp [account, hkept, hfailures, hgains.inFlight]
        rw [hsame]
        exact .same

end Cache

/-! ### The accounts of a world -/

namespace World

variable [DecidableEq K] {w w' w₁ : World K N V σ B} {c : CacheId} {cache old : Cache K V σ B}

/-- What is on record about a key in a cache, nothing if there is no such cache. -/
def account (w : World K N V σ B) (c : CacheId) (k : K) : Account V :=
  ((w.cache? c).map (·.account k)).getD {}

/-- The thread that holds the claim of a key in a cache. -/
def holder (w : World K N V σ B) (c : CacheId) (k : K) : Option ThreadId := (w.account c k).holder

/-- The failure that a request for the key is answered with, if the key has no value. -/
def replayable (w : World K N V σ B) (c : CacheId) (k : K) : Option Failure :=
  (w.cache? c).bind (·.replayable k)

/-- The cache remembers failures. -/
def Caches (w : World K N V σ B) (c : CacheId) : Prop :=
  ∃ cache, w.cache? c = some cache ∧ cache.config.cachesFailures = true

/-- The accounts of a world are those of its caches. -/
theorem account_of_cache? (h : w.cache? c = some cache) (k : K) :
    w.account c k = cache.account k := by
  rw [account, h, Option.map_some, Option.getD_some]

/-- Accounts can be read off the ledger. -/
theorem account_eq_ledger (w : World K N V σ B) (c : CacheId) (k : K) :
    w.account c k = ((w.ledger c).map (·.account k)).getD {} := by
  rw [account, ledger, Option.map_map]
  rfl

/-- The published value is the one of the account. -/
@[simp] theorem account_value (w : World K N V σ B) (c : CacheId) (k : K) :
    (w.account c k).value = w.stored c k := by
  rw [account, stored]
  cases w.cache? c <;> rfl

/-- The remembered failure is the one of the account. -/
@[simp] theorem account_failure (w : World K N V σ B) (c : CacheId) (k : K) :
    (w.account c k).failure = w.remembered c k := by
  rw [account, remembered]
  cases w.cache? c <;> rfl

/-- The holder of a claim is the one of the account. -/
@[simp] theorem account_holder (w : World K N V σ B) (c : CacheId) (k : K) :
    (w.account c k).holder = w.holder c k := rfl

/-- Equal accounts have equal values. -/
theorem stored_of_account (h : w'.account c k = w.account c k) : w'.stored c k = w.stored c k := by
  rw [← account_value, ← account_value, h]

/-- Equal accounts have equal failures. -/
theorem remembered_of_account {k : K} (h : w'.account c k = w.account c k) :
    w'.remembered c k = w.remembered c k := by
  rw [← account_failure, ← account_failure, h]

/-- Equal accounts have equal holders. -/
theorem holder_of_account {k : K} (h : w'.account c k = w.account c k) :
    w'.holder c k = w.holder c k := by
  rw [holder, holder, h]

/-- A failure is replayed if it is remembered and the cache remembers failures. -/
theorem replayable_eq_some_iff {k : K} {f : Failure} :
    w.replayable c k = some f ↔ w.Caches c ∧ w.remembered c k = some f := by
  rw [replayable, Caches, remembered]
  cases hcache : w.cache? c with
  | none => simp
  | some cache =>
      rw [Option.bind_some, Option.bind_some, Cache.replayable]
      cases hcaches : cache.config.cachesFailures <;> simp [hcaches]

/-- A cache that is replaced by one with the same accounts but for some keys. -/
theorem account_setCache (h : w.cache? c = some old) (cache : Cache K V σ B) (d : CacheId)
    (k : K) :
    (w.setCache c cache).account d k = if d = c then cache.account k else w.account d k := by
  rw [account, cache?_setCache]
  by_cases hcd : c = d
  · subst hcd
    simp [h]
  · rw [if_neg hcd, if_neg (Ne.symm hcd)]
    rfl

/-- What is replayed can be read off the ledger. -/
theorem replayable_eq_ledger (w : World K N V σ B) (c : CacheId) (k : K) :
    w.replayable c k = (w.ledger c).bind (·.replayable k) := by
  rw [replayable, ledger]
  cases w.cache? c <;> rfl

/-- Worlds with the same ledger replay the same failures. -/
theorem replayable_of_ledger (h : w'.ledger = w.ledger) (c : CacheId) (k : K) :
    w'.replayable c k = w.replayable c k := by
  rw [replayable_eq_ledger, replayable_eq_ledger, h]

/-- Worlds with the same ledger have the same accounts. -/
theorem account_of_ledger (h : w'.ledger = w.ledger) (c : CacheId) (k : K) :
    w'.account c k = w.account c k := by
  rw [account_eq_ledger, account_eq_ledger, h]

/-- Keys are filled, no failure is remembered or forgotten by itself, no claim is taken or given
back, and no thread is started. -/
structure Fills (w w' : World K N V σ B) : Prop where
  accounts : ∀ c k, (w.account c k).Fills (w'.account c k)
  threads : w'.threads = w.threads

/-- To leave every account as it is, and start no thread, is to fill keys. -/
theorem Fills.of_account (h : ∀ c k, w'.account c k = w.account c k)
    (threads : w'.threads = w.threads) : w.Fills w' where
  accounts c k := by
    rw [h]
    exact .same
  threads := threads

/-- A change that is not seen in the ledger leaves every account as it is. -/
theorem Fills.of_ledger (h : w'.ledger = w.ledger) (threads : w'.threads = w.threads) :
    w.Fills w' :=
  .of_account (account_of_ledger h) threads

/-- Keys keep their holders while they are filled. -/
theorem Fills.holder (h : w.Fills w') (c : CacheId) (k : K) : w'.holder c k = w.holder c k :=
  (h.accounts c k).holder_eq

/-- A cache may be replaced by one in which keys have been filled. -/
theorem Fills.setCache (h : w.cache? c = some old)
    (hfills : ∀ k, (old.account k).Fills (cache.account k)) : w.Fills (w.setCache c cache) where
  accounts d k := by
    rw [account_setCache h]
    split
    · rename_i hdc
      rw [hdc, account_of_cache? h]
      exact hfills k
    · exact .same
  threads := rfl

/-! ### What the operations do -/

omit [DecidableEq K] in
/-- Counting starts no thread. -/
theorem threads_countOnParent (w : World K N V σ B) (context : Context K V σ B)
    (e : Metrics.Event) : (w.countOnParent context e).threads = w.threads := by
  rw [countOnParent]
  split
  · rfl
  · split <;> rfl

/-- A request within a pass only counts in the books. -/
theorem lookupEntry_ledger [ToString K] (w : World K N V σ B) (x : ContextId)
    (context : Context K V σ B) (k : K) :
    (w.lookupEntry x context k).2.ledger = w.ledger ∧
      (w.lookupEntry x context k).2.threads = w.threads := by
  rw [lookupEntry]
  split
  · exact ⟨rfl, rfl⟩
  · exact ⟨rfl, rfl⟩
  · rw [issuePlaceholder]
    cases context.placeholders with
    | none => exact ⟨rfl, rfl⟩
    | some make =>
        exact ⟨ledger_countOnParent _ context .placeholderIssued,
          threads_countOnParent _ context .placeholderIssued⟩
  · cases context.builder with
    | none => exact ⟨rfl, rfl⟩
    | some b =>
        exact ⟨ledger_countOnParent _ context .builderInvocation,
          threads_countOnParent _ context .builderInvocation⟩

/-- A request within a pass is seen in no account, whatever it is answered. -/
theorem lookup_ledger [ToString K] {x : ContextId} {k : K} {l : Lookup V B}
    (h : w.lookup x k = some (l, w')) : w'.ledger = w.ledger ∧ w'.threads = w.threads := by
  cases looksUp_of_lookup h with
  | refused found parent cached foreign => exact ⟨rfl, rfl⟩
  | published found parent cached stored => exact ⟨rfl, rfl⟩
  | @entry context _ _ found unpublished entered =>
      have hkept := w.lookupEntry_ledger x context k
      rwa [entered] at hkept

variable [BEq V]

/-- A recorded value stays in its context, so no account shows it. -/
theorem record_ledger [ToString K] {x : ContextId} {k : K} {v : V} {overwrite : Bool}
    {r : Except Violation Unit} (h : w.record x k v overwrite = some (r, w')) :
    w'.ledger = w.ledger ∧ w'.threads = w.threads := by
  cases records_of_record h <;> exact ⟨rfl, rfl⟩

/-- A commit fills keys. -/
theorem commit_fills [ToString K] {x : ContextId} {r : Except Violation Bool}
    (h : w.commit x = some (r, w')) : w.Fills w' := by
  cases r with
  | error e =>
      rw [commit_error h]
      exact .of_account (fun _ _ => rfl) rfl
  | ok b =>
      obtain ⟨context, c, cache, cache', -, -, hcache, -, hpublish, rfl⟩ := commit_inv h
      exact .setCache hcache (Cache.publish_fills hpublish)

omit [DecidableEq K] [BEq V] in
/-- A new context is seen in no account. -/
theorem createContext_ledger {x : ContextId} (h : w.createContext c = some (x, w')) :
    w'.ledger = w.ledger ∧ w'.threads = w.threads := by
  rw [createContext, Option.map_eq_some_iff] at h
  obtain ⟨cache, -, h⟩ := h
  obtain ⟨-, rfl⟩ := Prod.mk.inj h
  exact ⟨rfl, rfl⟩

omit [BEq V] in
/-- A new cache has nothing on record. -/
theorem newCache_account (w : World K N V σ B) (config : Config K V σ B) (c : CacheId) (k : K) :
    (w.newCache config).2.account c k = w.account c k := by
  rw [account, account, cache?_newCache]
  split
  · rename_i hc
    have hnone : w.cache? c = none := by
      subst hc
      simp [newCache, cache?]
    rw [hnone]
    rfl
  · rfl

/-- Failures are forgotten on demand. -/
theorem answer_clearFailures [ToString K] [DecidableEq N] {a : Unit}
    (h : w.answer (.clearFailures c) = some (a, w')) :
    w'.threads = w.threads ∧ ∀ d k, w'.account d k =
      if d = c then { w.account d k with failure := none } else w.account d k := by
  simp only [answer, onCache, Option.map_eq_some_iff, Prod.mk.injEq] at h
  obtain ⟨cache, hcache, -, rfl⟩ := h
  refine ⟨rfl, fun d k => ?_⟩
  rw [account_setCache hcache]
  split
  · rename_i hdc
    rw [hdc, account_of_cache? hcache, Cache.clearFailures_account]
  · rfl

/-- Whatever else a routine requests at most fills keys. -/
theorem answer_fills [ToString K] [DecidableEq N] {r : Request K N V σ B} {a : r.Answer}
    (h : w.answer r = some (a, w')) (hr : ∀ c, r ≠ .clearFailures c) : w.Fills w' := by
  cases r with
  | newCache config =>
      obtain ⟨-, rfl⟩ := Prod.mk.inj (Option.some.inj h)
      exact .of_account (w.newCache_account config) rfl
  | published c k =>
      simp only [answer, Option.map_eq_some_iff, Prod.mk.injEq] at h
      obtain ⟨-, -, -, rfl⟩ := h
      exact .of_account (fun _ _ => rfl) rfl
  | insert c k v =>
      simp only [answer, onCache, Option.map_eq_some_iff, Prod.mk.injEq] at h
      obtain ⟨cache, hcache, -, rfl⟩ := h
      exact .setCache hcache (cache.insert_fills k v)
  | clearFailures c => exact absurd rfl (hr c)
  | resetCounters c =>
      simp only [answer, onCache, Option.map_eq_some_iff, Prod.mk.injEq] at h
      obtain ⟨cache, hcache, -, rfl⟩ := h
      exact .setCache hcache fun k => .same
  | newContext builder placeholders =>
      obtain ⟨-, rfl⟩ := Prod.mk.inj (Option.some.inj h)
      exact .of_account (fun _ _ => rfl) rfl
  | createContext c builder placeholders =>
      simp only [answer, bind, Option.bind_eq_some_iff, Option.pure_def, Option.some.injEq,
        Prod.mk.injEq] at h
      obtain ⟨⟨x, w₁⟩, hcreate, context, -, -, rfl⟩ := h
      obtain ⟨hledger, hthreads⟩ := createContext_ledger hcreate
      exact .of_ledger hledger hthreads
  | record x k v overwrite =>
      obtain ⟨hledger, hthreads⟩ := record_ledger h
      exact .of_ledger hledger hthreads
  | recorded x k =>
      simp only [answer, Option.map_eq_some_iff, Prod.mk.injEq] at h
      obtain ⟨-, -, -, rfl⟩ := h
      exact .of_account (fun _ _ => rfl) rfl
  | clear x =>
      simp only [answer, Option.map_eq_some_iff, Prod.mk.injEq] at h
      obtain ⟨context, -, -, rfl⟩ := h
      exact .of_account (fun _ _ => rfl) rfl
  | commit x => exact commit_fills h
  | newCell =>
      obtain ⟨-, rfl⟩ := Prod.mk.inj (Option.some.inj h)
      exact .of_account (fun _ _ => rfl) rfl
  | newRegistry template belongs =>
      obtain ⟨-, rfl⟩ := Prod.mk.inj (Option.some.inj h)
      exact .of_account (fun _ _ => rfl) rfl
  | scopedCache r ns =>
      simp only [answer, scopedCache, Option.map_eq_some_iff] at h
      obtain ⟨registry, -, h⟩ := h
      split at h
      · obtain ⟨-, rfl⟩ := Prod.mk.inj h
        exact .of_account (fun _ _ => rfl) rfl
      · obtain ⟨-, rfl⟩ := Prod.mk.inj h
        exact .of_account (fun c k => w.newCache_account (registry.configFor ns) c k) rfl
  | observe =>
      obtain ⟨-, rfl⟩ := Prod.mk.inj (Option.some.inj h)
      exact .of_account (fun _ _ => rfl) rfl
  | setClient client =>
      obtain ⟨-, rfl⟩ := Prod.mk.inj (Option.some.inj h)
      exact .of_account (fun _ _ => rfl) rfl

end World

end DerivationCache
