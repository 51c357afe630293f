import DerivationCache.Proofs.Settled
import Mathlib.Data.List.Count

/-!
# What is counted

Every step of a machine counts at most on one cache. What a step counts is known before it is made
(`Machine.incidents`): a request that is admitted counts a call and what it finds, a request within
a pass the builder that it calls or the placeholder that it asks for, and so on. A thread that has
missed a key and finds, when its turn comes, that the key has failed meanwhile is the only one that
counts an answer without a call (`Machine.shares`).

## Main results

* `Machine.incidents`: what a step counts.
* `Machine.counted_step`: a step counts its incidents, and nothing else.
-/

namespace DerivationCache

variable {K N V σ B : Type}

/-! ### Counting several events -/

/-- Requests and passes are counted by these events, and all else by the others. -/
def Metrics.Event.OfRequests : Metrics.Event → Prop
  | .getCall | .getHit | .getMiss | .pass | .failureReplay => True
  | _ => False

namespace Metrics.Counters

/-- Counts events one after another. -/
def countAll (c : Counters) (events : List Event) : Counters := events.foldl count c

/-- A counter grows by the number of its events, up to overflow. -/
theorem of_countAll (c : Counters) (events : List Event) (e : Event) :
    (c.countAll events).of e = c.of e + UInt64.ofNat (events.count e) := by
  induction events generalizing c with
  | nil => simp [countAll]
  | cons first rest ih =>
      have hfirst : c.countAll (first :: rest) = (c.count first).countAll rest := rfl
      rw [hfirst, ih, of_count, List.count_cons, UInt64.ofNat_add]
      by_cases he : e = first
      · simp only [he, if_true, beq_self_eq_true, UInt64.add_assoc]
        exact congrArg _ (UInt64.add_comm _ _)
      · simp [he, Ne.symm he]

/-- Events may be counted in two portions. -/
theorem countAll_append (c : Counters) (events events' : List Event) :
    c.countAll (events ++ events') = (c.countAll events).countAll events' :=
  List.foldl_append

end Metrics.Counters

namespace World

variable {w w₁ w' : World K N V σ B} {c : CacheId} {cache old : Cache K V σ B}

/-- From one world to the other, these events are counted on these caches, and no others. -/
def Counts (w w' : World K N V σ B) (incidents : List (CacheId × Metrics.Event)) : Prop :=
  ∀ c e, w'.counted c e = w.counted c e + UInt64.ofNat (incidents.count (c, e))

namespace Counts

/-- A change that leaves the caches alone counts nothing. -/
theorem of_caches (h : w'.caches = w.caches) : w.Counts w' [] := fun c e => by
  simp [counted_congr h]

/-- Where nothing happens, nothing is counted. -/
theorem refl (w : World K N V σ B) : w.Counts w [] := of_caches rfl

/-- What is counted on two ways that are joined. -/
theorem trans {l l' : List (CacheId × Metrics.Event)} (h : w.Counts w₁ l) (h' : w₁.Counts w' l') :
    w.Counts w' (l ++ l') := fun c e => by
  rw [h', h, List.count_append, UInt64.ofNat_add, UInt64.add_assoc]

/-- Some events are counted on a cache that is replaced. -/
theorem setCache (h : w.cache? c = some old) (events : List Metrics.Event)
    (hcounters : cache.counters = old.counters.countAll events) :
    w.Counts (w.setCache c cache) (events.map (c, ·)) := fun d e => by
  rw [counted_setCache h]
  by_cases hdc : d = c
  · subst hdc
    have hinjective : Function.Injective fun e : Metrics.Event => (d, e) :=
      fun _ _ h => (Prod.mk.inj h).2
    rw [if_pos rfl, hcounters, Metrics.Counters.of_countAll, counted_of_cache? h,
      List.count_map_of_injective events _ hinjective]
  · have hnone : (events.map (c, ·)).count (d, e) = 0 :=
      List.count_eq_zero.2 fun h => by simp [Ne.symm hdc] at h
    rw [if_neg hdc, hnone]
    exact (UInt64.add_zero _).symm

/-- A cache is replaced by one with the same counters. -/
theorem setCache_of_eq (h : w.cache? c = some old) (hcounters : cache.counters = old.counters) :
    w.Counts (w.setCache c cache) [] := setCache h [] hcounters

end Counts

end World

/-! ### What requests count -/

namespace Cache

variable [DecidableEq K]

/-- What a request finds that is admitted. -/
def finds (c : Cache K V σ B) (k : K) : Metrics.Event :=
  if (c.store.get? k).isSome then .getHit
  else if (c.replayable k).isSome then .failureReplay
  else .getMiss

/-- What a request counts: the call and what it finds. A foreign key is not counted. -/
def requested (c : Cache K V σ B) (k : K) : List Metrics.Event :=
  if c.owns k then [.getCall, c.finds k] else []

/-- What a request counts does not depend on the counters. -/
theorem requested_of_resetCounters {c c' : Cache K V σ B}
    (h : c'.resetCounters = c.resetCounters) (k : K) : c'.requested k = c.requested k := by
  have hsame : c'.resetCounters.requested k = c.resetCounters.requested k := by rw [h]
  exact hsame

/-- A request counts a call and what it comes to. -/
theorem request_counters [ToString K] (c : Cache K V σ B) (k : K) :
    (c.request k).2.counters = c.counters.countAll (c.requested k) := by
  cases howns : c.owns k with
  | false => simp [request, checkKey, requested, howns, Metrics.Counters.countAll]
  | true =>
      have hcheck : c.checkKey k = .ok () := if_pos howns
      rw [request, hcheck, requested, if_pos howns, finds]
      cases hstore : c.store.get? k with
      | some v =>
          have hfound : (c.count .getCall).store.get? k = some v := hstore
          simp only [hfound]
          rfl
      | none =>
          have hmissed : (c.count .getCall).store.get? k = none := hstore
          cases hreplayable : c.replayable k with
          | some f =>
              have hreplay : (c.count .getCall).replay k =
                  (some f, (c.count .getCall).count .failureReplay) :=
                replay_of_replayable hreplayable
              simp only [hmissed, hreplay]
              rfl
          | none =>
              have hreplay : (c.count .getCall).replay k = (none, c.count .getCall) :=
                replay_of_unreplayable hreplayable
              simp only [hmissed, hreplay]
              split <;> rfl

/-- Each of several requests for one key counts the same. -/
theorem requestAll_counters [ToString K] (k : K) (threads : List ThreadId) (c : Cache K V σ B) :
    (Machine.requestAll k threads c).2.counters =
      c.counters.countAll (List.replicate threads.length (c.requested k)).flatten := by
  induction threads generalizing c with
  | nil => rfl
  | cons t rest ih =>
      have hrest := ih (c.request k).2
      rw [c.request_counters, requested_of_resetCounters (c.request_reads k).2,
        ← Metrics.Counters.countAll_append] at hrest
      rw [List.length_cons, List.replicate_succ, List.flatten_cons, ← hrest]
      rcases hr : c.request k with ⟨_ | r, c₁⟩ <;> simp only [Machine.requestAll, hr]

/-- A direct insertion counts nothing. -/
theorem insert_counters [BEq V] [ToString K] (c : Cache K V σ B) (k : K) (v : V) :
    (c.insert k v).2.counters = c.counters := by
  rw [insert]
  split
  · rfl
  · split <;> rfl

/-- To remember an error counts nothing. -/
theorem remember_counters (c : Cache K V σ B) (k : K) (e : RequestError) :
    (c.remember k e).counters = c.counters := by
  cases e with
  | violation e => rfl
  | conflict key => rfl
  | failure f =>
      rw [remember]
      split <;> rfl

/-- Looking again counts a failure that is replayed. -/
theorem recheck_counters (c : Cache K V σ B) (k : K) :
    (c.recheck k).2.counters = c.counters.countAll
      (match (c.recheck k).1 with
        | some (.error _) => [.failureReplay]
        | _ => []) := by
  rw [recheck]
  cases hstore : c.store.get? k with
  | some v => rfl
  | none =>
      cases hreplayable : c.replayable k with
      | some f =>
          simp only [replay_of_replayable hreplayable]
          rfl
      | none =>
          simp only [replay_of_unreplayable hreplayable]
          rfl

end Cache

namespace World

/-- What a request for a derived value counts. -/
def requested [DecidableEq K] (w : World K N V σ B) (c : CacheId) (k : K) :
    List (CacheId × Metrics.Event) :=
  (w.cache? c).elim [] fun cache => (cache.requested k).map (c, ·)

variable [DecidableEq K] {w w' : World K N V σ B} {x : ContextId} {k : K}

/-- A request for a derived value counts calls, hits, replayed failures and misses, and nothing
else. -/
theorem requested_events {c : CacheId} : ∀ i ∈ w.requested c k,
    i.2 = .getCall ∨ i.2 = .getHit ∨ i.2 = .failureReplay ∨ i.2 = .getMiss := by
  intro i hi
  cases hcache : w.cache? c with
  | none => simp [requested, hcache] at hi
  | some cache =>
      simp only [requested, hcache, Option.elim_some, Cache.requested, Cache.finds] at hi
      split at hi
      · obtain ⟨e, he, rfl⟩ := List.mem_map.1 hi
        rcases List.mem_pair.1 he with rfl | rfl
        · exact Or.inl rfl
        · refine Or.inr ?_
          split
          · exact Or.inl rfl
          · split
            · exact Or.inr (Or.inl rfl)
            · exact Or.inr (Or.inr rfl)
      · simp at hi

section Records

variable [BEq V] [ToString K]

/-- A record is not seen in any cache. -/
theorem record_caches {v : V} {overwrite : Bool} {r : Except Violation Unit}
    (h : w.record x k v overwrite = some (r, w')) : w'.caches = w.caches := by
  cases records_of_record h <;> rfl

/-- What a commit counts on the parent of the context. A refused one counts nothing. -/
def decided (w : World K N V σ B) (x : ContextId) : List (CacheId × Metrics.Event) :=
  match w.parent? x, w.commit x with
  | some c, some (.ok published, _) => [(c, if published then .commit else .commitConflict)]
  | _, _ => []

/-- A commit counts a commit or a conflict, and nothing else. -/
theorem decided_events : ∀ i ∈ w.decided x, i.2 = .commit ∨ i.2 = .commitConflict := by
  intro i hi
  rw [decided] at hi
  split at hi
  · rename_i c published w' hc hcommit
    obtain rfl := List.mem_singleton.1 hi
    cases published
    · exact Or.inr rfl
    · exact Or.inl rfl
  · simp at hi

/-- What a commit counts has nothing to do with requests. -/
theorem decided_other : ∀ i ∈ w.decided x, ¬ i.2.OfRequests := by
  intro i hi
  rcases decided_events i hi with he | he <;> rw [he] <;> exact id

/-- A commit counts on the parent of its context, unless it is refused. -/
theorem commit_counts {r : Except Violation Bool} (h : w.commit x = some (r, w')) :
    w.Counts w' (w.decided x) := by
  rw [decided, h]
  cases r with
  | error e =>
      rw [commit_error h]
      cases w.parent? x <;> exact .refl w
  | ok b =>
      obtain ⟨context, c, cache, cache', hx, hc, hcache, -, hpublish, rfl⟩ := commit_inv h
      rw [parent?_of_context? hx, hc]
      have hcounters := Cache.publish_counters hpublish
      exact Counts.setCache hcache [if b then .commit else .commitConflict] hcounters

end Records

/-! ### Requests within a pass -/

section Lookups

variable {context : Context K V σ B} {c : CacheId} {cache : Cache K V σ B}

omit [DecidableEq K] in
/-- What is counted on the parent of an attached context. -/
theorem countOnParent_counts (hc : context.parent = some c) (hcache : w.cache? c = some cache)
    (e : Metrics.Event) : w.Counts (w.countOnParent context e) [(c, e)] := by
  rw [countOnParent, hc]
  simp only [hcache]
  exact Counts.setCache hcache [e] rfl

variable [ToString K] {l : Lookup V B}

/-- A detached context has nobody to count for it. -/
theorem lookupEntry_detached (hc : context.parent = none) :
    (w.lookupEntry x context k).2.caches = w.caches := by
  have hcount (w : World K N V σ B) (e : Metrics.Event) : w.countOnParent context e = w := by
    rw [countOnParent, hc]
  rw [lookupEntry]
  split
  · rfl
  · rfl
  · rw [issuePlaceholder]
    cases context.placeholders with
    | none => rfl
    | some make =>
        simp only [hcount]
        rfl
  · cases context.builder with
    | none => rfl
    | some b =>
        simp only [hcount]
        rfl

/-- A request within a pass counts the placeholder that it asks for, or the builder that it calls,
or nothing. -/
theorem lookupEntry_counts (hx : w.context? x = some context) (hc : context.parent = some c)
    (hcache : w.cache? c = some cache) (h : w.lookupEntry x context k = (l, w')) :
    (∃ answer, l = .answered answer ∧ w.Counts w' [] ∧ (w' = w ∨ w.keyState x k = none)) ∨
      (∃ answer p, l = .answered answer ∧ w.Counts w' [(c, .placeholderIssued)] ∧
        w.keyState x k = some .pending ∧ w'.keyState x k = some (.placeholderIssued p)) ∨
      ∃ b, l = .build b ∧ w.Counts w' [(c, .builderInvocation)] ∧ w.keyState x k = none := by
  rw [keyState_of_context? hx]
  rw [lookupEntry] at h
  split at h
  · obtain ⟨rfl, rfl⟩ := Prod.mk.inj h
    exact Or.inl ⟨_, rfl, .refl w, Or.inl rfl⟩
  · obtain ⟨rfl, rfl⟩ := Prod.mk.inj h
    exact Or.inl ⟨_, rfl, .refl w, Or.inl rfl⟩
  · rename_i hpending
    cases hmake : context.placeholders with
    | none =>
        simp only [issuePlaceholder, hmake] at h
        obtain ⟨rfl, rfl⟩ := Prod.mk.inj h
        exact Or.inl ⟨_, rfl, .refl _, Or.inl rfl⟩
    | some make =>
        simp only [issuePlaceholder, hmake] at h
        obtain ⟨rfl, rfl⟩ := Prod.mk.inj h
        generalize (make k w.cells.alloc.1 w.client).2 = client
        let w₁ : World K N V σ B := { w with cells := w.cells.alloc.2, client }
        have hcounts : w₁.Counts (w₁.countOnParent context .placeholderIssued)
            [(c, .placeholderIssued)] :=
          countOnParent_counts (w := w₁) hc hcache .placeholderIssued
        have hx₁ : (w₁.countOnParent context .placeholderIssued).context? x = some context := by
          rw [context?, (countOnParent_idles w₁ context _).contexts]
          exact hx
        have hissued (p : Placeholder V) :
            ((w₁.countOnParent context .placeholderIssued).setContext x
              (context.setEntry k (.placeholderIssued p))).keyState x k =
                some (.placeholderIssued p) := by
          rw [keyState_setEntry hx₁, if_pos ⟨rfl, rfl⟩]
        exact Or.inr (Or.inl ⟨_, _, rfl, hcounts, hpending, hissued _⟩)
  · rename_i hunseen
    cases hbuilder : context.builder with
    | none =>
        rw [hbuilder] at h
        obtain ⟨rfl, rfl⟩ := Prod.mk.inj h
        exact Or.inl ⟨_, rfl, .of_caches rfl, Or.inr hunseen⟩
    | some b =>
        rw [hbuilder] at h
        obtain ⟨rfl, rfl⟩ := Prod.mk.inj h
        exact Or.inr (Or.inr ⟨b, rfl,
          countOnParent_counts (w := w.setContext x _) hc hcache .builderInvocation, hunseen⟩)

omit [DecidableEq K] [ToString K] in
/-- A new cache has counted nothing. -/
theorem newCache_counts (w : World K N V σ B) (config : Config K V σ B) :
    w.Counts (w.newCache config).2 [] := fun c e => by
  rw [counted, counted, cache?_newCache]
  split
  · rename_i hc
    have hnone : w.cache? c = none := by simp [hc, newCache, cache?]
    rw [hnone]
    cases e <;> rfl
  · simp

end Lookups

/-! ### What routines request -/

section Answers

variable [DecidableEq N] [BEq V] [ToString K]

/-- What a request counts that is answered at once. -/
def performed (w : World K N V σ B) : Request K N V σ B → List (CacheId × Metrics.Event)
  | .commit x => w.decided x
  | _ => []

/-- A request that is answered at once counts nothing, unless it is a commit or sets counters
back. -/
theorem answer_counts {r : Request K N V σ B} {a : r.Answer} (h : w.answer r = some (a, w'))
    (hr : ∀ c, r ≠ .resetCounters c) : w.Counts w' (w.performed r) := by
  cases r with
  | newCache config =>
      obtain ⟨-, rfl⟩ := Prod.mk.inj (Option.some.inj h)
      exact newCache_counts w config
  | published c k =>
      simp only [answer, Option.map_eq_some_iff, Prod.mk.injEq] at h
      obtain ⟨-, -, -, rfl⟩ := h
      exact .refl w
  | insert c k v =>
      simp only [answer, onCache, Option.map_eq_some_iff, Prod.mk.injEq] at h
      obtain ⟨cache, hcache, -, rfl⟩ := h
      exact .setCache_of_eq hcache (cache.insert_counters k v)
  | clearFailures c =>
      simp only [answer, onCache, Option.map_eq_some_iff, Prod.mk.injEq] at h
      obtain ⟨cache, hcache, -, rfl⟩ := h
      exact .setCache_of_eq hcache rfl
  | resetCounters c => exact absurd rfl (hr c)
  | newContext builder placeholders =>
      obtain ⟨-, rfl⟩ := Prod.mk.inj (Option.some.inj h)
      exact .of_caches rfl
  | createContext c builder placeholders =>
      simp only [answer, bind, Option.bind_eq_some_iff, Option.pure_def, Option.some.injEq,
        Prod.mk.injEq] at h
      obtain ⟨⟨y, w₁⟩, hcreate, context, -, -, rfl⟩ := h
      obtain ⟨-, -, -, -, -, -, -, -, -, -, hcaches, -, -⟩ := createContext_inv hcreate
      exact .of_caches hcaches
  | record x k v overwrite => exact .of_caches (record_caches h)
  | recorded x k =>
      simp only [answer, Option.map_eq_some_iff, Prod.mk.injEq] at h
      obtain ⟨-, -, -, rfl⟩ := h
      exact .refl w
  | clear x =>
      simp only [answer, Option.map_eq_some_iff, Prod.mk.injEq] at h
      obtain ⟨context, -, -, rfl⟩ := h
      exact .of_caches rfl
  | commit x => exact commit_counts h
  | newCell =>
      obtain ⟨-, rfl⟩ := Prod.mk.inj (Option.some.inj h)
      exact .of_caches rfl
  | newRegistry template belongs =>
      obtain ⟨-, rfl⟩ := Prod.mk.inj (Option.some.inj h)
      exact .of_caches rfl
  | scopedCache r ns =>
      simp only [answer, scopedCache, Option.map_eq_some_iff] at h
      obtain ⟨registry, -, h⟩ := h
      split at h
      · obtain ⟨-, rfl⟩ := Prod.mk.inj h
        exact .refl w
      · obtain ⟨-, rfl⟩ := Prod.mk.inj h
        exact newCache_counts w _
  | observe =>
      obtain ⟨-, rfl⟩ := Prod.mk.inj (Option.some.inj h)
      exact .refl w
  | setClient client =>
      obtain ⟨-, rfl⟩ := Prod.mk.inj (Option.some.inj h)
      exact .of_caches rfl

end Answers

end World

/-! ### What steps count -/

/-- A request has come to a failure. -/
def Focus.isFailure : Focus K N V σ B → Bool
  | .deliver _ _ (.returned (.error (.failure _))) _ => true
  | _ => false

namespace Machine

variable [DecidableEq K] [DecidableEq N] [BEq V] [ToString K]

/-- A routine sets the counters of the cache back to zero. -/
def resets (m : Machine K N V σ B) (c : CacheId) : Bool :=
  match m.focus with
  | .run (.perform (.resetCounters d) _) => d = c
  | _ => false

variable (body : B → ContextId → K → Body K N V σ B)

/-- The next of the threads that have missed a key of the cache reaches for it, and is answered with
a failure at once. -/
def shares (m : Machine K N V σ B) (c : CacheId) : Bool :=
  match m.focus with
  | .wake d _ (_ :: _) _ _ => d = c && (m.step body).any (·.focus.isFailure)
  | _ => false

/-- What a request within a pass counts on the parent of its context. -/
def asked (m : Machine K N V σ B) : List Metrics.Event :=
  (m.called?.toList.map fun _ => .builderInvocation) ++
    m.issued?.toList.map fun _ => .placeholderIssued

/-- What the next step counts, and on which caches. -/
def incidents (m : Machine K N V σ B) : List (CacheId × Metrics.Event) :=
  match m.focus with
  | .run (.get c k _) => m.world.requested c k
  | .run (.race c k n _) => (List.replicate n (m.world.requested c k)).flatten
  | .run (.perform r _) => m.world.performed r
  | .ask x _ _ => (m.world.parent? x).elim [] fun c => m.asked.map (c, ·)
  | .reply x _ (.ok (some _)) (.pass ..) => m.world.decided x
  | .attempt p _ => if p.left = 0 then [] else [(p.cache, .pass)]
  | .wake c _ _ _ _ => if m.shares body c then [(c, .failureReplay)] else []
  | _ => []

variable {body} {m m' : Machine K N V σ B} {w : World K N V σ B} {stack : List (Frame K N V σ B)}

/-- Requests within a pass, ends of passes and requests that are answered at once count neither
requests for derived values nor passes. -/
theorem incidents_other (h : (∃ x k asker, m.focus = .ask x k asker) ∨
    (∃ x k answer asker, m.focus = .reply x k answer asker) ∨
      ∃ r next, m.focus = .run (.perform r next)) :
    ∀ i ∈ m.incidents body, ¬ i.2.OfRequests := by
  intro i hi
  rcases h with ⟨x, k, asker, hfocus⟩ | ⟨x, k, answer, asker, hfocus⟩ | ⟨r, next, hfocus⟩
  · cases hc : m.world.parent? x with
    | none => simp [incidents, hfocus, hc] at hi
    | some c =>
        simp only [incidents, hfocus, hc, Option.elim_some, asked, List.map_append, List.map_map,
          List.mem_append, List.mem_map] at hi
        rcases hi with ⟨l, -, rfl⟩ | ⟨l, -, rfl⟩ <;> exact id
  · rw [incidents, hfocus] at hi
    rcases asker with next | ⟨p, receiver⟩
    · rcases answer with e | _ | v <;> exact absurd hi List.not_mem_nil
    · rcases answer with e | _ | v
      · exact absurd hi List.not_mem_nil
      · exact absurd hi List.not_mem_nil
      · exact World.decided_other i hi
  · rw [incidents, hfocus] at hi
    cases r with
    | commit x => exact World.decided_other i hi
    | _ => exact absurd hi List.not_mem_nil

omit [DecidableEq N] [BEq V] [ToString K] in
/-- The end of a pass is not counted by itself. -/
theorem settle_counts {p : Pass K} {outcome : Outcome V} {receiver : Receiver K N V σ B}
    (h : m.settle p outcome receiver = some m') : m.world.Counts m'.world [] := by
  obtain ⟨cache, hcache, rfl⟩ := release_of_settle h
  exact .setCache_of_eq hcache rfl

omit [DecidableEq N] [BEq V] in
/-- A thread that has missed a key counts the failure that it is answered with. -/
theorem claim_counts {c : CacheId} {k : K} {thread : ThreadId} {receiver : Receiver K N V σ B}
    (h : m.claim c k thread receiver = some m') :
    m.world.Counts m'.world (if m'.focus.isFailure then [(c, .failureReplay)] else []) := by
  cases claims_of_claim h with
  | reentrant current held => exact .refl _
  | @answered cache _ _ r current free found =>
      obtain ⟨-, rfl⟩ := Cache.claim_eq_claimed_iff.1 free
      have hcounters := (cache.claimed k thread).recheck_counters k
      obtain ⟨hreads, -⟩ := (cache.claimed k thread).recheck_reads k
      rw [found] at hcounters hreads
      rcases hreads with ⟨v, hr, -⟩ | ⟨f, hr, -⟩ | ⟨hr, -⟩
      · obtain rfl := Option.some.inj hr
        exact .setCache current [] hcounters
      · obtain rfl := Option.some.inj hr
        exact .setCache current [.failureReplay] hcounters
      · simp at hr
  | @claimed cache _ _ current free missed =>
      obtain ⟨-, rfl⟩ := Cache.claim_eq_claimed_iff.1 free
      have hcounters := (cache.claimed k thread).recheck_counters k
      rw [missed] at hcounters
      exact .setCache current [] hcounters

/-- What the step counts at which a request within a pass has its answer. -/
theorem counts_reply {x : ContextId} {k : K} {answer : Except RequestError (Option V)}
    {asker : Asker K N V σ B} (hfocus : m.focus = .reply x k answer asker)
    (h : m.stepReply x k answer asker = some m') : m.world.Counts m'.world (m.incidents body) := by
  rw [incidents, hfocus]
  cases asker with
  | routine next =>
      obtain rfl := Option.some.inj h
      rcases answer with e | _ | v <;> exact .refl _
  | pass p receiver =>
      rcases answer with e | _ | v
      · simp only [stepReply, World.onCache, bind, Option.bind_eq_some_iff,
          Option.map_eq_some_iff] at h
        obtain ⟨-, ⟨cache, hcache, rfl⟩, h⟩ := h
        have hended := settle_counts h
        have hcounts := World.Counts.setCache_of_eq hcache (cache.remember_counters p.key e)
        exact hcounts.trans hended
      · exact settle_counts h
      · simp only [stepReply, bind, Option.bind_eq_some_iff] at h
        obtain ⟨⟨committed, w₁⟩, hcommit, h⟩ := h
        have hcounts := World.commit_counts hcommit
        have hsettled {outcome : Outcome V}
            (h : ({ m with world := w₁ } : Machine K N V σ B).settle p outcome receiver = some m') :
            m.world.Counts m'.world (m.world.decided x) := by
          have hended := settle_counts h
          have hboth := hcounts.trans hended
          rwa [List.append_nil] at hboth
        rcases committed with e | _ | _
        · exact hsettled h
        · simp only [Option.bind_eq_some_iff] at h
          obtain ⟨cache, -, h⟩ := h
          cases hp : cache.store.get? p.key with
          | some u =>
              simp only [hp] at h
              exact hsettled h
          | none =>
              simp only [hp] at h
              obtain rfl := Option.some.inj h
              exact hcounts
        · exact hsettled h

omit [DecidableEq N] [BEq V] in
/-- A request within a pass counts on the parent of its context, if the context has one. -/
theorem lookup_counts {x : ContextId} {asker : Asker K N V σ B} {k : K} {l : World.Lookup V B}
    (hlookup : w.lookup x k = some (l, w')) :
    w.Counts w' ((w.parent? x).elim [] fun c =>
      (⟨w, .ask x k asker, stack⟩ : Machine K N V σ B).asked.map (c, ·)) := by
  have hunissued (h : w' = w ∨ w.keyState x k = none) :
      (⟨w, .ask x k asker, stack⟩ : Machine K N V σ B).issued? = none := by
    rcases h with rfl | hunseen
    · exact issued?_of_lookup_self hlookup
    · simp [issued?, hunseen]
  cases World.looksUp_of_lookup hlookup with
  | refused found parent cached foreign =>
      rw [World.parent?_of_context? found, parent, Option.elim_some, asked, called?]
      simp only [hlookup]
      rw [hunissued (Or.inl rfl)]
      exact .refl _
  | published found parent cached stored =>
      rw [World.parent?_of_context? found, parent, Option.elim_some, asked, called?]
      simp only [hlookup]
      rw [hunissued (Or.inl rfl)]
      exact .refl _
  | @entry context _ _ found unpublished entered =>
      rw [World.parent?_of_context? found]
      cases hc : context.parent with
      | none =>
          have hcaches := World.lookupEntry_detached (k := k) (x := x) (w := w) hc
          rw [entered] at hcaches
          exact .of_caches hcaches
      | some c =>
          obtain ⟨cache, hcache, -⟩ := unpublished c hc
          rw [Option.elim_some, asked, called?]
          simp only [hlookup]
          rcases World.lookupEntry_counts found hc hcache entered with
            ⟨answer, rfl, hcounts, hsame⟩ | ⟨answer, p, rfl, hcounts, hpending, hissued⟩ |
            ⟨b, rfl, hcounts, hunseen⟩
          · rw [hunissued hsame]
            exact hcounts
          · have hplaceholder :
                (⟨w, .ask x k asker, stack⟩ : Machine K N V σ B).issued? = some k := by
              simp [issued?, hlookup, hpending, hissued]
            rw [hplaceholder]
            exact hcounts
          · rw [hunissued (Or.inr hunseen)]
            exact hcounts

omit [DecidableEq N] [BEq V] in
/-- A thread that has just missed a key finds no failure when it reaches for the key. -/
theorem claim_missed {c : CacheId} {k : K} {cache : Cache K V σ B} {thread : ThreadId}
    {receiver : Receiver K N V σ B} {focus : Focus K N V σ B} (hcache : w.cache? c = some cache)
    (hmissed : (cache.request k).1 = none)
    (h : claim ⟨w.setCache c (cache.request k).2, focus, stack⟩ c k thread receiver = some m') :
    m'.focus.isFailure = false := by
  obtain ⟨hreads, hsame⟩ := cache.request_reads k
  rw [hmissed] at hreads
  obtain ⟨-, ⟨r, hfocus, hanswers, -⟩ | ⟨hfocus, -⟩⟩ := claim_posts h
  · rw [hfocus]
    cases hanswers with
    | published v stored => rfl
    | refused e => rfl
    | replayed f unpublished replayable =>
        rw [World.replayable_of_ledger (World.ledger_setCache_of_eq hcache hsame),
          World.replayable, hcache] at replayable
        cases hreads with
        | missed owns unpublished unreplayable builder =>
            rw [Option.bind_some, unreplayable] at replayable
            simp at replayable
  · rw [hfocus]
    rfl

/-- What the step of a routine counts, unless it sets counters back. -/
theorem counts_run {b : Body K N V σ B} (hm : m.focus = .run b) (h : m.stepRun b = some m')
    (hresets : ∀ c, m.resets c = false) : m.world.Counts m'.world (m.incidents body) := by
  obtain ⟨w, focus, stack⟩ := m
  obtain rfl : focus = .run b := hm
  cases b with
  | done result =>
      cases stack with
      | nil => simp [stepRun] at h
      | cons frame rest =>
          cases result with
          | error e =>
              obtain rfl := Option.some.inj h
              exact .refl _
          | ok v =>
              simp only [stepRun, bind, Option.bind_eq_some_iff] at h
              obtain ⟨⟨answer, w'⟩, hrecord, h⟩ := h
              have hcounts := World.Counts.of_caches (World.record_caches hrecord)
              cases answer with
              | error e =>
                  obtain rfl := Option.some.inj h
                  exact hcounts
              | ok u =>
                  obtain rfl := Option.some.inj h
                  exact hcounts
  | panic message =>
      rcases stack with _ | ⟨⟨x, k, thread, _ | ⟨p, receiver⟩⟩, rest⟩
      · simp [stepRun] at h
      · obtain rfl := Option.some.inj h
        exact .refl _
      · have hsettle : (⟨w, .run (.panic message), rest⟩ : Machine K N V σ B).settle p
            (.panicked message) receiver = some m' := h
        have hcounts := settle_counts hsettle
        exact hcounts
  | halt => simp [stepRun] at h
  | perform r next =>
      simp only [stepRun, bind, Option.bind_eq_some_iff] at h
      obtain ⟨⟨a, w'⟩, hanswer, h⟩ := h
      obtain rfl := Option.some.inj h
      refine World.answer_counts hanswer fun c hc => ?_
      subst hc
      simpa [resets] using hresets c
  | build x k next =>
      obtain rfl := Option.some.inj h
      exact .refl _
  | get c k next =>
      simp only [stepRun, World.onCache, bind, Option.bind_eq_some_iff,
        Option.map_eq_some_iff] at h
      obtain ⟨⟨answer, w₁⟩, ⟨cache, hcache, hrequest⟩, h⟩ := h
      obtain ⟨rfl, rfl⟩ := Prod.mk.inj hrequest
      have hcounts : w.Counts (w.setCache c (cache.request k).2) (w.requested c k) := by
        rw [World.requested, hcache, Option.elim_some]
        exact .setCache hcache _ (cache.request_counters k)
      cases hreads : (cache.request k).1 with
      | some r =>
          simp only [hreads] at h
          obtain rfl := Option.some.inj h
          exact hcounts
      | none =>
          simp only [hreads] at h
          -- The request has been counted as a miss, and taking the claim counts nothing more.
          have hclaim := claim_counts h
          rw [claim_missed hcache hreads h, if_neg Bool.false_ne_true] at hclaim
          have hboth := hcounts.trans hclaim
          rw [List.append_nil] at hboth
          exact hboth
  | race c k n next =>
      simp only [stepRun, World.onCache, bind, Option.bind_eq_some_iff,
        Option.map_eq_some_iff] at h
      obtain ⟨-, ⟨cache, hcache, rfl⟩, h⟩ := h
      obtain rfl := Option.some.inj h
      have hcounters := cache.requestAll_counters k
        ((List.range n).map fun i => (⟨w.threads + i⟩ : ThreadId))
      rw [List.length_map, List.length_range] at hcounters
      have hcounts := World.Counts.setCache hcache _ hcounters
      rw [List.map_flatten, List.map_replicate] at hcounts
      simp only [incidents, World.requested, hcache, Option.elim_some]
      exact hcounts

omit [DecidableEq N] [BEq V] in
/-- An attempt counts a pass, unless it is the one too many. -/
theorem counts_attempt {p : Pass K} {receiver : Receiver K N V σ B}
    (h : m.stepAttempt p receiver = some m') :
    m.world.Counts m'.world (if p.left = 0 then [] else [(p.cache, .pass)]) := by
  rcases start_of_stepAttempt h with ⟨hleft, h⟩ |
    ⟨left, cache, x, w', hleft, hcache, hcreate, rfl⟩
  · rw [if_pos hleft]
    exact settle_counts h
  · obtain ⟨-, -, -, -, -, -, -, -, -, -, hcaches, -, -⟩ := World.createContext_inv hcreate
    have hcounts : m.world.Counts (m.world.setCache p.cache (cache.count .pass))
        [(p.cache, .pass)] := .setCache hcache [.pass] rfl
    rw [if_neg (by simp [hleft])]
    exact hcounts.trans (.of_caches hcaches)

/-- A step counts its incidents, unless it sets counters back. -/
theorem counts_step (h : m.step body = some m') (hresets : ∀ c, m.resets c = false) :
    m.world.Counts m'.world (m.incidents body) := by
  obtain ⟨w, focus, stack⟩ := m
  cases focus with
  | run b => exact counts_run rfl h hresets
  | ask x k asker =>
      simp only [step, stepAsk, bind, Option.bind_eq_some_iff] at h
      obtain ⟨⟨l, w'⟩, hlookup, h⟩ := h
      cases l with
      | answered answer =>
          obtain rfl := Option.some.inj h
          exact lookup_counts hlookup
      | build b =>
          obtain rfl := Option.some.inj h
          exact lookup_counts hlookup
  | reply x k answer asker => exact counts_reply rfl h
  | attempt p receiver => exact counts_attempt h
  | deliver c k r receiver =>
      obtain rfl := Option.some.inj h
      cases receiver with
      | caller next => cases r <;> exact .refl _
      | crowd waiting outcomes next => exact .refl _
  | wake c k waiting outcomes next =>
      cases waiting with
      | nil =>
          obtain rfl := Option.some.inj h
          exact .refl _
      | cons thread waiting =>
          have hcounts := claim_counts h
          simpa [incidents, shares, h] using hcounts

/-- What a step does to the counters: it sets those of one cache back, or it counts its
incidents. -/
theorem counted_step (h : m.step body = some m') (c : CacheId) (e : Metrics.Event) :
    m'.world.counted c e = if m.resets c then 0
      else m.world.counted c e + UInt64.ofNat ((m.incidents body).count (c, e)) := by
  by_cases hresets : ∃ d, m.resets d = true
  · obtain ⟨d, hd⟩ := hresets
    obtain ⟨w, focus, stack⟩ := m
    rw [resets] at hd
    split at hd
    · rename_i d' next hfocus
      obtain rfl : focus = _ := hfocus
      obtain rfl : d' = d := of_decide_eq_true hd
      simp only [step, stepRun, World.answer, World.onCache, bind, Option.bind_eq_some_iff,
        Option.map_eq_some_iff] at h
      obtain ⟨-, ⟨cache, hcache, rfl⟩, h⟩ := h
      obtain rfl := Option.some.inj h
      have hcounted := World.counted_setCache hcache cache.resetCounters c e
      have hzero : cache.resetCounters.counters.of e = 0 := by cases e <;> rfl
      rw [hzero] at hcounted
      refine hcounted.trans ?_
      by_cases hcd : c = d'
      · simp [resets, hcd]
      · simp [resets, incidents, World.performed, hcd, Ne.symm hcd]
    · simp at hd
  · have hquiet (d : CacheId) : m.resets d = false :=
      Bool.eq_false_iff.2 fun hd => hresets ⟨d, hd⟩
    rw [hquiet c, if_neg Bool.false_ne_true, counts_step h hquiet c e]

end Machine

end DerivationCache
