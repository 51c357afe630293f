import DerivationCache.Proofs.Execution
import DerivationCache.Proofs.LocalBuilder

/-!
# Single flight

Several threads request one key at the same time, and all of them miss it. Whatever the order in
which they reach for the key, their passes run one after another, until a pass settles the key: it
publishes a value, or fails with a failure that is remembered. The threads that have not reached
for the key by then share the outcome of this pass. A pass that panics, or fails without being
remembered, is followed by the next one.

The builders are local here, the passes do not conflict, and each of them comes to an end
(`Machine.Untroubled`). A race is followed from the wake of one thread to the wake of the next one
(`Machine.wake_flies`), and `Machine.Flown` says what is seen on the way.

## Main results

* `Cache.Concluded.landed`: what a pass leaves on record about its key.
* `Machine.wake_opens`, `Machine.Over.lands`: the start and the end of a pass.
* `Machine.wake_flies`: a thread that finds the key unsettled has a pass of its own.
* `Machine.wake_shares`: all threads, one after another.
* `single_flight`: the outcomes of all threads, and what is counted for them.
-/

namespace DerivationCache

variable {K N V σ B : Type}

/-! ### What a pass leaves on record -/

/-- The value that the call returned. -/
def Outcome.value? : Outcome V → Option V
  | .returned (.ok v) => some v
  | _ => none

/-- The failure that the call returned. -/
def Outcome.failure? : Outcome V → Option Failure
  | .returned (.error (.failure f)) => some f
  | _ => none

/-- The value of a call is what it returned. -/
@[simp] theorem Outcome.value?_eq_some {r : Outcome V} {v : V} :
    r.value? = some v ↔ r = .returned (.ok v) := by
  rcases r with (e | v) | message <;> simp [value?]

/-- The failure of a call is the error that the builder itself reported. -/
@[simp] theorem Outcome.failure?_eq_some {r : Outcome V} {f : Failure} :
    r.failure? = some f ↔ r = .returned (.error (.failure f)) := by
  rcases r with (⟨_ | f | _⟩ | v) | message <;> simp [failure?]

/-- The number of failures that are replayed when a thread shares the outcome. -/
def Outcome.replays : Outcome V → UInt64
  | .returned a => Cache.replays a
  | .panicked _ => 0

variable [DecidableEq K]

namespace Cache

/-- What is on record about a key after a pass for it has ended with this outcome: the value that it
returned, or the failure, if failures are remembered. The key is free. -/
structure Landed (c : Cache K V σ B) (k : K) (r : Outcome V) (c' : Cache K V σ B) : Prop where
  config : c'.config = c.config
  free : c'.inFlight.get? k = none
  stored : c'.store.get? k = r.value?
  replayable : c'.replayable k = if c.config.cachesFailures then r.failure? else none

variable {c c' : Cache K V σ B} {k : K} {r : Outcome V}

/-- A key that has to be derived has no failure to be replayed. -/
theorem Underived.unreplayable (hk : c.Underived k) : c.replayable k = none := by
  rw [Cache.replayable]
  split
  · rename_i hcaches
    exact hk.unmemoized hcaches
  · rfl

/-- What is on record when the claim is given back is what was written before. -/
theorem Landed.of_release {d : Cache K V σ B} (config : d.config = c.config)
    (stored : d.store.get? k = r.value?)
    (remembered : c.config.cachesFailures = true → d.failures.get? k = r.failure?) :
    c.Landed k r (d.release k) where
  config := config
  free := by simp [release]
  stored := stored
  replayable := by
    have hreleased : (d.release k).config = c.config := config
    rw [Cache.replayable, hreleased]
    split
    · rename_i hcaches
      exact remembered hcaches
    · rfl

/-- A pass for a key that had to be derived leaves its outcome on record. -/
theorem Concluded.landed (hk : c.Underived k) {thread : ThreadId}
    (h : (c.claimed k thread).Concluded k r c') : c.Landed k r (c'.release k) := by
  cases h with
  | panicked message => exact .of_release rfl hk.unpublished hk.unmemoized
  | failed e =>
      cases e with
      | violation e => exact .of_release rfl hk.unpublished hk.unmemoized
      | conflict key => exact .of_release rfl hk.unpublished hk.unmemoized
      | failure f =>
          have haccount := remember_account (c.claimed k thread) k f k
          refine .of_release (remember_config _ k _) ?_ fun hcaches => ?_
          · have hvalue := congrArg Account.value haccount
            rw [apply_ite Account.value, ite_self] at hvalue
            exact hvalue.trans hk.unpublished
          · rw [if_pos ⟨rfl, hcaches, hk.unmemoized hcaches⟩] at haccount
            exact congrArg Account.failure haccount
  | @published _ x v gains recorded =>
      refine .of_release gains.config ?_ fun _ => ?_
      · rw [gains.store, recorded]
        exact congrArg (·.or (some v)) hk.unpublished
      · rw [gains.failures, if_pos ⟨hk.unpublished, by rw [recorded]; rfl⟩]
        rfl

/-- Exactly the failure of the pass is replayed afterwards. -/
theorem Landed.replayable_eq_some_iff (h : c.Landed k r c') {f : Failure} :
    c'.replayable k = some f ↔
      c.config.cachesFailures = true ∧ r = .returned (.error (.failure f)) := by
  rw [h.replayable, ← Outcome.failure?_eq_some]
  cases c.config.cachesFailures <;> simp

/-- A shared outcome is a replayed failure if the key has one. -/
theorem Landed.replays (h : c.Landed k r c') {a : Except RequestError V} (ha : c'.Settled k a) :
    r.replays = if (c'.replayable k).isSome then 1 else 0 := by
  cases ha with
  | published v stored =>
      rw [h.stored, Outcome.value?_eq_some] at stored
      have hnone : c'.replayable k = none := by
        rw [h.replayable, stored]
        exact ite_self none
      simp [hnone, stored, Outcome.replays, Cache.replays]
  | failed f unpublished replayable =>
      obtain ⟨-, hr⟩ := h.replayable_eq_some_iff.1 replayable
      simp [replayable, hr, Outcome.replays, Cache.replays]

/-- Only what is configured matters of the cache before the pass. -/
theorem Landed.trans {r' : Outcome V} {c₁ : Cache K V σ B} (h : c.Landed k r' c₁)
    (h' : c₁.Landed k r c') : c.Landed k r c' where
  config := h'.config.trans h.config
  free := h'.free
  stored := h'.stored
  replayable := by rw [h'.replayable, h.config]

/-- After a pass the key is settled by its outcome, or has to be derived as before. -/
theorem Landed.settled_or (hk : c.Underived k) (h : c.Landed k r c') :
    (∃ a, r = .returned a ∧ c'.Settled k a) ∨
      (c'.Underived k ∧ c'.store.get? k = none ∧ c'.replayable k = none) := by
  cases hstored : c'.store.get? k with
  | some v =>
      rw [h.stored, Outcome.value?_eq_some] at hstored
      exact Or.inl ⟨_, hstored, .published v (by rw [h.stored, hstored]; rfl)⟩
  | none =>
      cases hreplayable : c'.replayable k with
      | some f =>
          have hfailure := (h.replayable_eq_some_iff.1 hreplayable).2
          exact Or.inl ⟨_, hfailure, .failed f hstored hreplayable⟩
      | none =>
          refine Or.inr ⟨⟨?_, hstored, fun hcaches => ?_, h.free, ?_⟩, rfl, rfl⟩
          · rw [owns, h.config]
            exact hk.owns
          · rwa [Cache.replayable, if_pos hcaches] at hreplayable
          · rw [h.config]
            exact hk.derivable

end Cache

/-! ### What is seen on the way -/

variable [DecidableEq N] [BEq V] [ToString K]

/-- All builders that the cache makes are local to the contexts that they are called for. -/
def Cache.BuildsLocally (body : B → ContextId → K → Body K N V σ B) (c : Cache K V σ B) : Prop :=
  ∀ make, c.config.makeBuilder = some make → ∀ client x k, (body (make client).1 x k).Local x

namespace Machine

variable {body : B → ContextId → K → Body K N V σ B} {m m' : Machine K N V σ B}
  {ms ms' : List (Machine K N V σ B)} {stack : List (Frame K N V σ B)} {c : CacheId} {k : K}

/-- The routine on this stack goes on. -/
def Resumed (stack : List (Frame K N V σ B)) (m : Machine K N V σ B) : Prop :=
  m.stack = stack ∧ ∃ b, m.focus = .run b

/-- Until the routine on this stack goes on, every pass that is started comes to an end, and none
conflicts. -/
structure Untroubled (body : B → ContextId → K → Body K N V σ B) (stack : List (Frame K N V σ B))
    (m : Machine K N V σ B) : Prop where
  ends : ∀ ms o, Path body m ms o → (∀ i ∈ ms, ¬ i.Resumed stack) → o.startsPass = true →
    ∃ ms' o', Path body o ms' o' ∧ (o'.concludes? body).isSome = true
  agrees : ∀ ms o, Path body m ms o → (∀ i ∈ ms, ¬ i.Resumed stack) → o.conflicts = false

/-- What is promised until the routine goes on is still promised on the way. -/
theorem Untroubled.of_path (h : m.Untroubled body stack) (path : Path body m ms m')
    (hms : ∀ i ∈ ms, ¬ i.Resumed stack) : m'.Untroubled body stack where
  ends ms' o hpath hms' := h.ends (ms ++ ms') o (path.trans hpath) fun i hi =>
    (List.mem_append.1 hi).elim (hms i) (hms' i)
  agrees ms' o hpath hms' := h.agrees (ms ++ ms') o (path.trans hpath) fun i hi =>
    (List.mem_append.1 hi).elim (hms i) (hms' i)

/-- On the way through these machines, which all belong to a race that was started on this stack,
so many passes are started, and passes end with these outcomes. All passes are passes for the key,
which has neither a value nor a failure to replay when they are started, and there are never two of
them at the same time. -/
structure Flown (body : B → ContextId → K → Body K N V σ B) (c : CacheId) (k : K)
    (stack : List (Frame K N V σ B)) (ms : List (Machine K N V σ B)) (started : Nat)
    (outcomes : List (Outcome V)) : Prop where
  outcomes : ms.filterMap (concludes? body) = outcomes
  started : ms.countP startsPass = started
  single : ∀ m ∈ ms, m.passes.length ≤ (stack.flatMap fun frame => frame.asker.passes).length + 1
  missed : ∀ m ∈ ms, m.startsPass = true →
    (∃ p receiver, m.focus = .attempt p receiver ∧ p.cache = c ∧ p.key = k) ∧
      m.world.stored c k = none ∧ m.world.replayable c k = none
  inside : ∀ m ∈ ms, ¬ m.Resumed stack

namespace Flown

/-- Two parts of a race, one after the other. -/
theorem append {n n' : Nat} {rs rs' : List (Outcome V)} (h : Flown body c k stack ms n rs)
    (h' : Flown body c k stack ms' n' rs') :
    Flown body c k stack (ms ++ ms') (n + n') (rs ++ rs') where
  outcomes := by rw [List.filterMap_append, h.outcomes, h'.outcomes]
  started := by rw [List.countP_append, h.started, h'.started]
  single m hm := (List.mem_append.1 hm).elim (h.single m) (h'.single m)
  missed m hm := (List.mem_append.1 hm).elim (h.missed m) (h'.missed m)
  inside m hm := (List.mem_append.1 hm).elim (h.inside m) (h'.inside m)

/-- No pass starts or ends. -/
theorem quiet (h : ∀ m ∈ ms, m.concludes? body = none ∧ m.startsPass = false ∧
    m.passes.length ≤ (stack.flatMap fun frame => frame.asker.passes).length + 1 ∧
    ¬ m.Resumed stack) : Flown body c k stack ms 0 [] where
  outcomes := List.filterMap_eq_nil_iff.2 fun m hm => (h m hm).1
  started := List.countP_eq_zero.2 fun m hm => by simp [(h m hm).2.1]
  single m hm := (h m hm).2.2.1
  missed m hm hstarts := by simp [(h m hm).2.1] at hstarts
  inside m hm := (h m hm).2.2.2

/-- Between passes there is none. -/
theorem between (h : ∀ m ∈ ms, m.stack = stack ∧ m.focus.Between) :
    Flown body c k stack ms 0 [] := by
  refine quiet fun m hm => ?_
  obtain ⟨hstack, hbetween⟩ := h m hm
  refine ⟨concludes?_of_between hbetween, startsPass_of_passes_eq_nil hbetween.passes_eq_nil, ?_,
    ?_⟩
  · rw [passes, hbetween.passes_eq_nil, hstack, List.nil_append]
    exact Nat.le_succ _
  · rintro ⟨-, b, hfocus⟩
    exact hbetween.not_run b hfocus

end Flown

/-- A pass is started for the key, which has neither a value nor a failure to replay. -/
theorem Flown.attempt {w : World K N V σ B} {cache : Cache K V σ B}
    (hcache : w.ledger c = some cache) (hunpublished : cache.store.get? k = none)
    (hunreplayable : cache.replayable k = none) {thread : ThreadId}
    {receiver : Receiver K N V σ B}
    (hnone : (⟨w, .attempt ⟨c, k, thread, passLimit⟩ receiver, stack⟩ :
      Machine K N V σ B).concludes? body = none) :
    Flown body c k stack [⟨w, .attempt ⟨c, k, thread, passLimit⟩ receiver, stack⟩] 1 [] where
  outcomes := by simp [hnone]
  started := rfl
  single m hm := by
    obtain rfl := List.mem_singleton.1 hm
    simp [passes, Focus.passes, Nat.add_comm]
  missed m hm _ := by
    obtain rfl := List.mem_singleton.1 hm
    refine ⟨⟨_, _, rfl, rfl, rfl⟩, ?_, ?_⟩
    · rw [World.stored_eq_ledger, hcache]
      exact hunpublished
    · rw [World.replayable_eq_ledger, hcache]
      exact hunreplayable
  inside m hm := by
    obtain rfl := List.mem_singleton.1 hm
    rintro ⟨-, b, hfocus⟩
    simp at hfocus

/-- The requested key is asked for within the pass. -/
theorem Flown.ask {w : World K N V σ B} {x : ContextId} {p : Pass K} {receiver : Receiver K N V σ B}
    (hnone : (⟨w, .ask x k (.pass p receiver), stack⟩ : Machine K N V σ B).concludes? body = none) :
    Flown body c k stack [⟨w, .ask x k (.pass p receiver), stack⟩] 0 [] := .quiet fun m hm => by
  obtain rfl := List.mem_singleton.1 hm
  refine ⟨hnone, rfl, by simp [passes, Focus.passes, Asker.passes, Nat.add_comm], ?_⟩
  rintro ⟨-, b, hfocus⟩
  simp at hfocus

variable {s : PassSetting K V σ B} {p : Pass K} {receiver : Receiver K N V σ B}

/-- The builders of the pass are running. -/
theorem Within.flown
    (h : ∀ m ∈ ms, m.Within s k (.pass p receiver) stack ∧ m.concludes? body = none) :
    Flown body c k stack ms 0 [] := .quiet fun m hm => by
  obtain ⟨hm, hnone⟩ := h m hm
  refine ⟨hnone, hm.startsPass, ?_, fun h => hm.stack_ne h.1⟩
  rw [hm.passes_eq]
  simp [Asker.passes, Nat.add_comm]

omit [DecidableEq N] [BEq V] [ToString K] in
/-- A pass that is over starts no other one, and the race goes on. -/
theorem Over.quiet {asker : Asker K N V σ B} (h : m.Over s k asker stack) :
    m.startsPass = false ∧ ¬ m.Resumed stack := by
  cases h with
  | replied answer inPass recorded =>
      refine ⟨rfl, ?_⟩
      rintro ⟨-, b, hfocus⟩
      simp at hfocus
  | panicked thread message inPass =>
      refine ⟨rfl, ?_⟩
      rintro ⟨hstack, -⟩
      simpa using congrArg List.length hstack

/-- The pass ends with its outcome. -/
theorem Over.flown (h : m.Over s k (.pass p receiver) stack) {r : Outcome V}
    (hends : m.concludes? body = some r) : Flown body c k stack [m] 0 [r] where
  outcomes := by simp [hends]
  started := by simp [h.quiet.1]
  single o ho := by
    obtain rfl := List.mem_singleton.1 ho
    rw [h.passes_eq]
    simp [Asker.passes, Nat.add_comm]
  missed o ho hstarts := by
    obtain rfl := List.mem_singleton.1 ho
    simp [h.quiet.1] at hstarts
  inside o ho := by
    obtain rfl := List.mem_singleton.1 ho
    exact h.quiet.2

/-! ### One thread after another -/

/-- A path to the end of a pass goes on from where none has ended yet. -/
theorem Path.rest {n o : Machine K N V σ B} (path : Path body m ms n)
    (hms : ∀ i ∈ ms, i.concludes? body = none) (path' : Path body m ms' o)
    (hend : (o.concludes? body).isSome = true) : ∃ ms'', Path body n ms'' o := by
  induction path generalizing ms' with
  | here => exact ⟨_, path'⟩
  | @step m m₁ n ms made rest ih =>
      have hnone := hms m (List.mem_cons_self ..)
      cases path' with
      | here => simp [hnone] at hend
      | step made' rest' =>
          obtain rfl := Option.some.inj (made'.symm.trans made)
          exact ih (fun i hi => hms i (List.mem_cons_of_mem m hi)) rest'

variable {w w' : World K N V σ B} {cache : Cache K V σ B}

variable (body) in
/-- A thread that finds the key underived claims it. -/
theorem step_wake_claims (hcache : w.ledger c = some cache) (hk : cache.Underived k)
    (thread : ThreadId) (waiting : List ThreadId) (outcomes : List (Outcome V))
    (next : List (Outcome V) → Body K N V σ B) (stack : List (Frame K N V σ B)) :
    ∃ w', (⟨w, .wake c k (thread :: waiting) outcomes next, stack⟩ :
        Machine K N V σ B).step body =
        some ⟨w', .attempt ⟨c, k, thread, passLimit⟩ (.crowd waiting outcomes next), stack⟩ ∧
      w'.ledger = Function.update w.ledger c (some (cache.claimed k thread)) ∧
      w.CountsAlike w' := by
  obtain ⟨current, hcurrent, rfl⟩ := World.cache_of_ledger hcache
  refine ⟨w.setCache c (current.claimed k thread), ?_, World.ledger_setCache hcurrent _,
    .setCache hcurrent fun e he => rfl⟩
  exact claim_underived (m := ⟨w, .wake c k (thread :: waiting) outcomes next, stack⟩) hcurrent
    (hk.congr rfl) thread _

omit [BEq V] [DecidableEq N] in
/-- A pass that is started is counted, and has a builder from the cache. -/
theorem stepAttempt_inv {p : Pass K} {receiver : Receiver K N V σ B} {x : ContextId}
    {asker : Asker K N V σ B} (hcache : w.ledger p.cache = some cache)
    (made : (⟨w, .attempt p receiver, stack⟩ : Machine K N V σ B).stepAttempt p receiver =
      some ⟨w', .ask x p.key asker, stack⟩) :
    (∀ e, w'.counted p.cache e = w.counted p.cache e + if e = .pass then 1 else 0) ∧
      ∀ context, w'.context? x = some context → ∃ client,
        context.builder = cache.config.makeBuilder.map fun make => (make client).1 := by
  obtain ⟨current, hcurrent, rfl⟩ := World.cache_of_ledger hcache
  rcases start_of_stepAttempt made with ⟨-, hsettle⟩ |
    ⟨left, found, y, w₁, -, hfound, hcreate, hmachine⟩
  · obtain ⟨w₁, -, hsettled⟩ := settle_inv hsettle
    simp at hsettled
  · obtain rfl := Option.some.inj (hcurrent.symm.trans hfound)
    obtain ⟨hworld, hfocus, -⟩ := Machine.mk.inj hmachine
    obtain ⟨rfl, -, -⟩ := Focus.ask.inj hfocus
    obtain rfl : w' = w₁ := hworld
    obtain ⟨cache', context, hcache', -, hcontext, -, -, hbuilder, -, -, hcaches, -⟩ :=
      World.createContext_inv hcreate
    rw [World.cache?_setCache_self hcurrent] at hcache'
    obtain rfl := Option.some.inj hcache'
    refine ⟨fun e => ?_, fun context' hcontext' => ?_⟩
    · rw [World.counted_congr hcaches, World.counted_setCache hcurrent, if_pos rfl,
        World.counted_of_cache? hcurrent]
      exact Metrics.Counters.of_count _ _ e
    · obtain rfl := Option.some.inj (hcontext.symm.trans hcontext')
      exact ⟨_, hbuilder⟩

/-- A thread that finds the key underived claims it, starts a pass, and calls the builder. -/
theorem wake_opens (hcache : w.ledger c = some cache) (hk : cache.Underived k)
    (hlocal : cache.BuildsLocally body) (thread : ThreadId) (waiting : List ThreadId)
    (outcomes : List (Outcome V)) (next : List (Outcome V) → Body K N V σ B)
    (stack : List (Frame K N V σ B)) :
    ∃ (s : PassSetting K V σ B) (left : Nat) (m₁ m₂ m₃ : Machine K N V σ B),
      (⟨w, .wake c k (thread :: waiting) outcomes next, stack⟩ : Machine K N V σ B).step body =
        some m₁ ∧
      m₁.startsPass = true ∧ Path body m₁ [m₁, m₂] m₃ ∧
      Flown body c k stack [⟨w, .wake c k (thread :: waiting) outcomes next, stack⟩, m₁, m₂] 1 [] ∧
      m₃.Within s k (.pass ⟨c, k, thread, left⟩ (.crowd waiting outcomes next)) stack ∧
      (∀ l, (body s.builder s.context l).Local s.context) ∧
      s.parent = c ∧ s.cache = cache.claimed k thread ∧
      ∀ e, e.OfRequests → m₃.world.counted c e = w.counted c e + if e = .pass then 1 else 0 := by
  obtain ⟨make, hmake⟩ := Option.isSome_iff_exists.1 hk.derivable
  obtain ⟨w₁, hclaims, hledger₁, hcounts₁⟩ :=
    step_wake_claims body hcache hk thread waiting outcomes next stack
  have hclaimed : w₁.ledger c = some (cache.claimed k thread) := by
    rw [hledger₁, Function.update_self]
  obtain ⟨s, w₂, hopens, hopened, hs, hpass₂⟩ := step_attempt_opens body (k := k) hclaimed hmake
    thread 3 (.crowd waiting outcomes next) stack
  obtain ⟨hcounts₂, hbuilder⟩ := stepAttempt_inv (p := ⟨c, k, thread, 3 + 1⟩) hclaimed hopens
  have howns : s.cache.owns k = true := by
    rw [hs]
    exact hk.owns
  have hunpublished : s.cache.store.get? k = none := by
    rw [hs]
    exact hk.unpublished
  obtain ⟨t, w₃, hasks, hpass₃, -, -⟩ := hpass₂.ask_unseen body howns hunpublished
    (Table.get?_empty k) (.pass ⟨c, k, thread, 3⟩ (.crowd waiting outcomes next)) stack
  have hcounts₃ := step_counts (x := s.context) hasks (Or.inr (Or.inl ⟨_, _, _, rfl⟩))
  have hlocal' : ∀ l, (body s.builder s.context l).Local s.context := by
    obtain ⟨client, hclient⟩ := hbuilder _ hpass₂.context
    have hmade : s.builder = (make client).1 := by simpa [Cache.claimed, hmake] using hclient
    intro l
    rw [hmade]
    exact hlocal make hmake client s.context l
  refine ⟨s, 3, _, _, _, hclaims, rfl, .step hopens (.one hasks), ?_,
    .intro [] t hpass₃ (hlocal' k) (by simp), hlocal', hopened.parent, hs, ?_⟩
  · have hwaked : Flown body c k stack
        [⟨w, .wake c k (thread :: waiting) outcomes next, stack⟩] 0 [] := .between fun m hm => by
      obtain rfl := List.mem_singleton.1 hm
      exact ⟨rfl, trivial⟩
    have hstarted := Flown.attempt hclaimed hk.unpublished hk.unreplayable
      (concludes?_eq_none hopens (by simp))
    exact hwaked.append (hstarted.append (.ask (concludes?_eq_none hasks (by simp))))
  · intro e he
    rw [hcounts₃ c e he, hcounts₂ e, hcounts₁ c e he]

variable (body) in
/-- A pass that is over gives its outcome to its thread, and the next thread wakes up. -/
theorem Over.lands {s : PassSetting K V σ B} {thread : ThreadId} {left : Nat}
    {waiting : List ThreadId} {outcomes : List (Outcome V)}
    {next : List (Outcome V) → Body K N V σ B}
    (h : m.Over s k (.pass ⟨c, k, thread, left⟩ (.crowd waiting outcomes next)) stack)
    (hparent : s.parent = c) (hagrees : m.conflicts = false) :
    ∃ ms w' cache' r, Path body m ms ⟨w', .wake c k waiting (outcomes ++ [r]) next, stack⟩ ∧
      Flown body c k stack ms 0 [r] ∧ s.cache.Concluded k r cache' ∧
      w'.ledger c = some (cache'.release k) ∧ m.world.CountsAlike w' := by
  obtain ⟨w', cache', r, made, hconcluded, hledger⟩ :=
    Over.step body (p := ⟨c, k, thread, left⟩) h hparent.symm hagrees
  have hdelivered : Flown body c k stack
      [⟨w', .deliver c k r (.crowd waiting outcomes next), stack⟩] 0 [] := .between fun m hm => by
    obtain rfl := List.mem_singleton.1 hm
    exact ⟨rfl, trivial⟩
  have hended := h.flown (c := c) (concludes?_of_step made rfl h.passes_eq)
  refine ⟨_, w', cache', r, .step made (.one rfl), hended.append hdelivered, hconcluded, ?_,
    h.counts made⟩
  rw [hledger, hparent, Function.update_self]

/-- A thread that finds the key underived has a pass of its own. -/
theorem wake_flies (hcache : w.ledger c = some cache) (hk : cache.Underived k)
    (hlocal : cache.BuildsLocally body) {thread : ThreadId} {waiting : List ThreadId}
    {outcomes : List (Outcome V)} {next : List (Outcome V) → Body K N V σ B}
    (hm : Untroubled body stack ⟨w, .wake c k (thread :: waiting) outcomes next, stack⟩) :
    ∃ ms w' cache' r, Path body ⟨w, .wake c k (thread :: waiting) outcomes next, stack⟩ ms
        ⟨w', .wake c k waiting (outcomes ++ [r]) next, stack⟩ ∧
      Flown body c k stack ms 1 [r] ∧ w'.ledger c = some cache' ∧ cache.Landed k r cache' ∧
      ∀ e, e.OfRequests → w'.counted c e = w.counted c e + if e = .pass then 1 else 0 := by
  obtain ⟨s, left, m₁, m₂, m₃, hclaims, hstarts, hopens, hopened, hwithin, hlocal', hparent, hs,
    hcounts⟩ := wake_opens hcache hk hlocal thread waiting outcomes next stack
  -- The builder is at work until the pass is over.
  obtain ⟨ms₁, o₁, hpath₁, hend⟩ := hm.ends _ m₁ (.one hclaims)
    (fun i hi => hopened.inside i (by simp [List.mem_singleton.1 hi])) hstarts
  have hnone (i) (hi : i ∈ [m₁, m₂]) : i.concludes? body = none :=
    List.filterMap_eq_nil_iff.1 hopened.outcomes i (List.mem_cons_of_mem _ hi)
  obtain ⟨ms₂, hpath₂⟩ := hopens.rest hnone hpath₁ hend
  obtain ⟨ms, o, hpath, hover, hcounts', hms⟩ := hwithin.concludes hlocal' hpath₂ hend
  have hbuilt := hopened.append (Within.flown hms)
  -- It ends without a conflict, and the next thread wakes up.
  have hagrees := hm.agrees _ o (.step hclaims (hopens.trans hpath)) hbuilt.inside
  obtain ⟨ms', w', cache', r, hpath', hlanded, hconcluded, hledger, hcounts''⟩ :=
    hover.lands body hparent hagrees
  rw [hs] at hconcluded
  refine ⟨_, w', cache'.release k, r, .step hclaims (hopens.trans (hpath.trans hpath')), ?_,
    hledger, hconcluded.landed hk, fun e he => ?_⟩
  · have hflown := hbuilt.append hlanded
    rwa [List.append_assoc] at hflown
  · rw [hcounts'' c e he, hcounts' c e he, hcounts e he]

/-- Threads that have missed a key run passes for it one after another, until a pass settles the
key. The others share the outcome of the last pass. -/
theorem wake_shares (hcache : w.ledger c = some cache) (hk : cache.Underived k)
    (hlocal : cache.BuildsLocally body) {thread : ThreadId} {waiting : List ThreadId}
    {outcomes : List (Outcome V)} {next : List (Outcome V) → Body K N V σ B}
    (hm : Untroubled body stack ⟨w, .wake c k (thread :: waiting) outcomes next, stack⟩) :
    ∃ ms w' cache' rs last,
      Path body ⟨w, .wake c k (thread :: waiting) outcomes next, stack⟩ ms
        ⟨w', .run (next (outcomes ++
          (rs ++ List.replicate (waiting.length + 1 - rs.length) last))), stack⟩ ∧
      Flown body c k stack ms rs.length rs ∧ rs.getLast? = some last ∧
      rs.length ≤ waiting.length + 1 ∧ w'.ledger c = some cache' ∧ cache.Landed k last cache' ∧
      (rs.length = waiting.length + 1 ∨ ∃ a, cache'.Settled k a) ∧
      ∀ e, e.OfRequests → w'.counted c e = w.counted c e +
        (if e = .pass then UInt64.ofNat rs.length else 0) +
        if e = .failureReplay then
          UInt64.ofNat (waiting.length + 1 - rs.length) * last.replays else 0 := by
  induction waiting generalizing w cache thread outcomes with
  | nil =>
      obtain ⟨ms, w₁, cache₁, r, hpath, hflown, hcache₁, hlanded, hcounts⟩ :=
        wake_flies hcache hk hlocal hm
      have hdone : Flown body c k stack [⟨w₁, .wake c k [] (outcomes ++ [r]) next, stack⟩] 0 [] :=
        .between fun m hm => by
          obtain rfl := List.mem_singleton.1 hm
          exact ⟨rfl, trivial⟩
      refine ⟨_, w₁, cache₁, [r], r, hpath.trans (.one rfl), hflown.append hdone, rfl,
        Nat.le_refl _, hcache₁, hlanded, Or.inl rfl, fun e he => ?_⟩
      rw [hcounts e he]
      simp
  | cons second waiting ih =>
      obtain ⟨ms, w₁, cache₁, r, hpath, hflown, hcache₁, hlanded, hcounts⟩ :=
        wake_flies hcache hk hlocal hm
      rcases hlanded.settled_or hk with ⟨a, rfl, hsettled⟩ | ⟨hk₁, -, -⟩
      -- The other threads share what is on record, and start no pass.
      · obtain ⟨ms', w', hpath', hledger, hcounts', hms'⟩ := wake_settled body hcache₁
          hlanded.free hsettled (second :: waiting) (outcomes ++ [.returned a]) next stack
        rw [List.append_assoc] at hpath'
        refine ⟨_, w', cache₁, [.returned a], .returned a, hpath.trans hpath',
          hflown.append (.between hms'), rfl, by simp, hledger ▸ hcache₁, hlanded,
          Or.inr ⟨a, hsettled⟩, fun e he => ?_⟩
        rw [hcounts', hcounts e he]
        simp [Outcome.replays]
      -- Nothing is on record after this pass, so the next thread has to start one of its own.
      · have hlocal₁ : cache₁.BuildsLocally body := by
          intro make hmake
          rw [hlanded.config] at hmake
          exact hlocal make hmake
        obtain ⟨ms', w', cache', rs, last, hpath', hflown', hlast, hlength, hcache', hlanded',
          hsettled, hcounts'⟩ := ih hcache₁ hk₁ hlocal₁ (hm.of_path hpath hflown.inside)
        have hleft : (second :: waiting).length + 1 - (r :: rs).length =
            waiting.length + 1 - rs.length := by simp
        have hboth := hflown.append hflown'
        rw [List.append_assoc] at hpath'
        rw [List.singleton_append, Nat.add_comm] at hboth
        refine ⟨_, w', cache', r :: rs, last, ?_, hboth, ?_, by simpa using hlength, hcache',
          hlanded.trans hlanded', hsettled.imp (fun h => by simp [h]) id, fun e he => ?_⟩
        · rw [hleft]
          exact hpath.trans hpath'
        · rw [List.getLast?_cons, hlast]
          rfl
        · rw [hcounts' e he, hcounts e he, hleft, List.length_cons, UInt64.ofNat_add]
          by_cases hpass : e = .pass
          · simp [hpass]
            grind
          · simp [hpass]

end Machine

/-- Any number of threads request one key at the same time, which has to be derived, and whose
builders act on their contexts alone. All of them miss it. Then, in whatever order they reach for
the key, and provided that every pass comes to an end and none conflicts:

* the outcomes of the passes, which run one after another, are the outcomes of the first threads,
  and all other threads share the last of them;
* every pass was started for the key while it had neither a value nor a failure to replay, so no
  pass but the last one has settled it; if not every thread has had a pass, the last one has;
* the value that is published at the end is the one that the last pass has returned, if it has
  returned one, and so is the failure that is replayed from now on, if the cache remembers failures;
* nobody holds the key any longer;
* a call and a miss are counted for every thread, a pass for every outcome of a pass, and a replayed
  failure for every thread that shares one. -/
theorem single_flight {body : B → ContextId → K → Body K N V σ B} {w : World K N V σ B}
    {c : CacheId} {k : K} {cache : Cache K V σ B} (hcache : w.cache? c = some cache)
    (hk : cache.Underived k)
    (hlocal : cache.BuildsLocally body) {n : Nat} (hn : 1 ≤ n)
    (next : List (Outcome V) → Body K N V σ B) (stack : List (Frame K N V σ B)) :
    ∃ w₁, (⟨w, .run (.race c k n next), stack⟩ : Machine K N V σ B).step body =
        some ⟨w₁, .wake c k ((List.range n).map fun i => ⟨w.threads + i⟩) [] next, stack⟩ ∧
      ∀ order, order.Perm ((List.range n).map fun i => (⟨w.threads + i⟩ : ThreadId)) →
        Machine.Untroubled body stack ⟨w₁, .wake c k order [] next, stack⟩ →
        ∃ ms w' rs last,
          Machine.Path body ⟨w₁, .wake c k order [] next, stack⟩ ms
            ⟨w', .run (next (rs ++ List.replicate (n - rs.length) last)), stack⟩ ∧
          Machine.Flown body c k stack ms rs.length rs ∧ rs.getLast? = some last ∧ rs.length ≤ n ∧
          (rs.length = n ∨ (∃ v, w'.stored c k = some v) ∨ ∃ f, w'.replayable c k = some f) ∧
          (∀ v, w'.stored c k = some v ↔ last = .returned (.ok v)) ∧
          (∀ f, w'.replayable c k = some f ↔
            w.Caches c ∧ last = .returned (.error (.failure f))) ∧
          w'.holder c k = none ∧
          w'.counted c .getCall = w.counted c .getCall + UInt64.ofNat n ∧
          w'.counted c .getMiss = w.counted c .getMiss + UInt64.ofNat n ∧
          w'.counted c .pass = w.counted c .pass + UInt64.ofNat rs.length ∧
          w'.counted c .failureReplay = w.counted c .failureReplay +
            if (w'.replayable c k).isSome then UInt64.ofNat (n - rs.length) else 0 := by
  obtain ⟨w₁, hraces, hledger₁, hcounts₁⟩ := Machine.step_race_missed body hcache
    (.missed hk.owns hk.unpublished hk.unreplayable hk.derivable) n next stack
  refine ⟨w₁, hraces, fun order horder huntroubled => ?_⟩
  have hlength : order.length = n := by
    rw [horder.length_eq, List.length_map, List.length_range]
  cases order with
  | nil =>
      rw [List.length_nil] at hlength
      omega
  | cons thread waiting =>
      have hcache₁ : w₁.ledger c = some cache.resetCounters := by
        rw [hledger₁, World.ledger_of_cache? hcache]
      obtain ⟨ms, w', cache', rs, last, hpath, hflown, hlast, hbound, hcache', hlanded, hsettled,
        hcounts⟩ := Machine.wake_shares hcache₁ (hk.congr rfl) hlocal huntroubled
      rw [List.length_cons] at hlength
      rw [hlength] at hpath hbound hsettled hcounts
      have hstored : w'.stored c k = cache'.store.get? k := by
        rw [World.stored_eq_ledger, hcache', Option.bind_some]
      have hreplayable : w'.replayable c k = cache'.replayable k := by
        rw [World.replayable_eq_ledger, hcache', Option.bind_some]
      have hholder : w'.holder c k = cache'.inFlight.get? k := by
        rw [World.holder, World.account_eq_ledger, hcache']
        rfl
      have hcaches : w.Caches c ↔ cache.config.cachesFailures = true := by
        simp [World.Caches, hcache]
      refine ⟨ms, w', rs, last, hpath, hflown, hlast, hbound, ?_, fun v => ?_, fun f => ?_, ?_, ?_,
        ?_, ?_, ?_⟩
      · rw [hstored, hreplayable]
        refine hsettled.imp id ?_
        rintro ⟨a, (⟨v, hv⟩ | ⟨f, -, hf⟩)⟩
        · exact Or.inl ⟨v, hv⟩
        · exact Or.inr ⟨f, hf⟩
      · rw [hstored, hlanded.stored, Outcome.value?_eq_some]
      · rw [hreplayable, hcaches]
        exact hlanded.replayable_eq_some_iff
      · rw [hholder, hlanded.free]
      · rw [hcounts .getCall trivial, hcounts₁]
        simp
      · rw [hcounts .getMiss trivial, hcounts₁]
        simp
      · rw [hcounts .pass trivial, hcounts₁]
        simp
      · have hshared : UInt64.ofNat (n - rs.length) * last.replays =
            if (cache'.replayable k).isSome then UInt64.ofNat (n - rs.length) else 0 := by
          rcases hsettled with hall | ⟨a, ha⟩
          · simp [hall]
          · rw [hlanded.replays ha]
            split <;> simp
        rw [hcounts .failureReplay trivial, hcounts₁, hreplayable, ← hshared]
        simp

/-! ### Three threads, and builders that panic and fail -/

namespace Machine

variable {body : B → ContextId → K → Body K N V σ B} {m n : Machine K N V σ B}
  {ms : List (Machine K N V σ B)} {stack : List (Frame K N V σ B)}

/-- A path goes through the machines that a run goes through. -/
theorem Path.run_mem (path : Path body m ms n) {i : Nat} (hi : i < ms.length) :
    Machine.run body i m ∈ ms := by
  induction path generalizing i with
  | here => simp at hi
  | step made rest ih =>
      cases i with
      | zero => exact List.mem_cons_self ..
      | succ i =>
          rw [Machine.run, made]
          exact List.mem_cons_of_mem _ (ih (Nat.lt_of_succ_lt_succ hi))

/-- A run is a path while there are steps to make. -/
theorem Path.of_run {length : Nat}
    (runs : ∀ i < length, ((Machine.run body i m).step body).isSome = true) :
    ∃ ms, Path body m ms (Machine.run body length m) ∧
      ∀ o, o ∈ ms ↔ ∃ i < length, Machine.run body i m = o := by
  induction length with
  | zero => exact ⟨[], .here, by simp⟩
  | succ length ih =>
      obtain ⟨ms, hpath, hms⟩ := ih fun i hi => runs i (Nat.lt_succ_of_lt hi)
      obtain ⟨m', made⟩ := Option.isSome_iff_exists.1 (runs length (Nat.lt_succ_self length))
      rw [run_succ_of_step made]
      refine ⟨_, hpath.trans (.one made), fun o => ?_⟩
      rw [List.mem_append, hms, List.mem_singleton, Nat.exists_lt_succ_right, eq_comm (a := o)]

/-- A path that ends before the routine on the stack goes on is no longer than the run up to
there. -/
theorem Path.length_le (path : Path body m ms n) (hms : ∀ i ∈ ms, ¬ i.Resumed stack)
    {length : Nat} (hresumed : (Machine.run body length m).Resumed stack) : ms.length ≤ length :=
  Nat.le_of_not_lt fun hlt => hms _ (path.run_mem hlt) hresumed

/-- A run is checked state by state. -/
theorem Untroubled.of_run (length : Nat)
    (runs : ∀ i < length, ((Machine.run body i m).step body).isSome = true)
    (hresumed : (Machine.run body length m).Resumed stack)
    (hends : ∀ i ≤ length, (Machine.run body i m).startsPass = true →
      ∃ j ≤ length, i ≤ j ∧ ((Machine.run body j m).concludes? body).isSome = true)
    (hagrees : ∀ i ≤ length, (Machine.run body i m).conflicts = false) :
    m.Untroubled body stack where
  ends ms o hpath hms hstarts := by
    rw [← hpath.run] at hstarts ⊢
    obtain ⟨j, hj, hij, hend⟩ := hends ms.length (hpath.length_le hms hresumed) hstarts
    obtain ⟨i, rfl⟩ := Nat.exists_eq_add_of_le hij
    rw [run_add] at hend
    have hruns : ∀ l < i, ((Machine.run body l (Machine.run body ms.length m)).step body).isSome =
        true := fun l hl => by
      rw [← run_add]
      exact runs _ (by omega)
    obtain ⟨ms', hpath', -⟩ := Path.of_run hruns
    exact ⟨ms', _, hpath', hend⟩
  agrees ms o hpath hms := by
    rw [← hpath.run]
    exact hagrees ms.length (hpath.length_le hms hresumed)

end Machine

namespace ThreeThreads

/-- What the second call reports. -/
def failure : Failure := ⟨.counted 1, "second"⟩

/-- The first call of the builder panics, and the second one fails. -/
def body (_ : Unit) (_ : ContextId) (_ : Nat) : Body Nat Unit Nat Nat Unit :=
  .perform .observe fun w => .perform (.setClient (w.client + 1)) fun _ =>
    match w.client with
    | 0 => .panic "first"
    | 1 => .done (.error (.failure failure))
    | calls => .done (.ok calls)

/-- Failures are remembered. -/
def config : Config Nat Nat Nat Unit where
  makeBuilder := some fun client => ((), client)
  cachesFailures := true

/-- One empty cache. -/
def world : World Nat Unit Nat Nat Unit := (World.newCache { client := 0 } config).2

/-- What is done with the outcomes of the threads. -/
def next (outcomes : List (Outcome Nat)) : Body Nat Unit Nat Nat Unit := .done (.ok outcomes.length)

/-- Three threads have missed a key, and reach for it in another order than they were started in. -/
def missed : Machine Nat Unit Nat Nat Unit :=
  match (⟨world, .run (.race ⟨0⟩ 1 3 next), []⟩ : Machine Nat Unit Nat Nat Unit).step body with
  | some m => ⟨m.world, .wake ⟨0⟩ 1 [⟨3⟩, ⟨1⟩, ⟨2⟩] [] next, []⟩
  | none => ⟨world, .run .halt, []⟩

/-- The builder acts on nothing but what its callers share. -/
theorem body_local (b : Unit) (x : ContextId) (k : Nat) : (body b x k).Local x := by
  refine .perform (.apart .observe) fun w => .perform (.apart (.setClient _)) fun _ => ?_
  split
  · exact .panic _
  · exact .done _
  · exact .done _

/-- The run of the race is short enough to be looked through. -/
theorem missed_untroubled : missed.Untroubled body [] := by
  refine .of_run 18 ?_ ⟨rfl, _, rfl⟩ ?_ ?_
  · decide +kernel
  · decide +kernel
  · decide +kernel

/-- The first thread panics, the second one fails, and the third one shares the failure. -/
theorem threads_single_flight :
    world.cache? ⟨0⟩ = some (.ofConfig config) ∧
      (Cache.ofConfig config).Underived 1 ∧
      (Cache.ofConfig config).BuildsLocally body ∧
      missed.Untroubled body [] ∧
      ∃ ms w' rs last, Machine.Path body missed ms
          ⟨w', .run (next (rs ++ List.replicate (3 - rs.length) last)), []⟩ ∧
        rs.length = 2 ∧ last = .returned (.error (.failure failure)) ∧
        w'.counted ⟨0⟩ .failureReplay = 1 := by
  have hcache : world.cache? ⟨0⟩ = some (.ofConfig config) := rfl
  have hk : (Cache.ofConfig config).Underived 1 := ⟨rfl, rfl, fun _ => rfl, rfl, rfl⟩
  have hlocal : (Cache.ofConfig config).BuildsLocally body :=
    fun make _ client x k => body_local (make client).1 x k
  refine ⟨hcache, hk, hlocal, missed_untroubled, ?_⟩
  obtain ⟨w₁, hraces, hall⟩ := single_flight hcache hk hlocal (n := 3) (by decide) next []
  have hmissed : missed = ⟨w₁, .wake ⟨0⟩ 1 [⟨3⟩, ⟨1⟩, ⟨2⟩] [] next, []⟩ := by
    simp [missed, hraces]
  obtain ⟨ms, w', rs, last, hpath, hflown, -, hbound, -, -, hreplayed, -, -, -, hpasses, -⟩ :=
    hall [⟨3⟩, ⟨1⟩, ⟨2⟩] (by decide) (hmissed ▸ missed_untroubled)
  rw [← hmissed] at hpath
  -- The race ends where the run does, which is evaluated.
  have hend : Machine.run body 18 missed =
      ⟨w', .run (next (rs ++ List.replicate (3 - rs.length) last)), []⟩ := by
    have hlength : ms.length ≤ 18 := hpath.length_le hflown.inside ⟨rfl, _, rfl⟩
    obtain ⟨i, hi⟩ := Nat.exists_eq_add_of_le hlength
    rw [hi, Machine.run_add, hpath.run]
    exact Machine.run_of_step_eq_none rfl i
  have hworld : (Machine.run body 18 missed).world = w' := by rw [hend]
  have hcounted : w'.counted ⟨0⟩ .pass = 2 ∧ w'.counted ⟨0⟩ .failureReplay = 1 ∧
      w'.replayable ⟨0⟩ 1 = some failure := by
    rw [← hworld]
    decide +kernel
  refine ⟨ms, w', rs, last, hpath, ?_, ((hreplayed _).1 hcounted.2.2).2, hcounted.2.1⟩
  rw [hcounted.1] at hpasses
  have hzero : world.counted ⟨0⟩ .pass = 0 := rfl
  rw [hzero] at hpasses
  have hcases : rs.length = 0 ∨ rs.length = 1 ∨ rs.length = 2 ∨ rs.length = 3 := by omega
  rcases hcases with h | h | h | h
  · simp [h] at hpasses
  · simp [h] at hpasses
  · exact h
  · simp [h] at hpasses

end ThreeThreads

end DerivationCache
