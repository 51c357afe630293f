import DerivationCache.Proofs.Counting
import DerivationCache.Proofs.Ensemble
import Mathlib.Algebra.BigOperators.Ring.Finset

/-!
# Running passes

A pass runs from the step that makes its context to the one that decides its commit, or gives the
pass up because of an error or a panic (`Machine.givesUp`). Between two passes of one request there
is none running. The passes that are running stand at the askers of a machine, each beside its
context (`Machine.sites`).

A request that has missed its key may start four passes, and so may every thread that waits. What a
machine may still start without another miss is its budget (`Machine.budget`).

## Main results

* `PassStep.of_step`: a step starts a pass, ends the innermost one, or leaves them as they are.
* `PassStep.balance`: how the counters keep up with this.
* `PassStep.affords`: a pass is paid for by the budget, and the budget by misses.
-/

namespace DerivationCache

variable {K N V σ B : Type}

/-! ### Passes and budgets -/

/-- The pass that asks for its requested key within the context. -/
def Asker.sites (x : ContextId) : Asker K N V σ B → List (ContextId × Pass K)
  | .routine _ => []
  | .pass p _ => [(x, p)]

/-- The pass whose requested key is asked for or replied to at this moment, beside its context. -/
def Focus.sites : Focus K N V σ B → List (ContextId × Pass K)
  | .ask x _ asker => asker.sites x
  | .reply x _ _ asker => asker.sites x
  | _ => []

/-- How many passes a claimed request may still start in the cache, with the threads that wait for
it. -/
def Pass.budget (p : Pass K) (receiver : Receiver K N V σ B) (c : CacheId) : Nat :=
  if p.cache = c then p.left + passLimit * receiver.waiting.length else 0

/-- How many passes may still be started by the request that waits for an answer. -/
def Asker.budget (c : CacheId) : Asker K N V σ B → Nat
  | .routine _ => 0
  | .pass p receiver => p.budget receiver c

/-- How many passes may still be started by the request that is being served at this moment. -/
def Focus.budget (c : CacheId) : Focus K N V σ B → Nat
  | .run _ => 0
  | .ask _ _ asker => asker.budget c
  | .reply _ _ _ asker => asker.budget c
  | .attempt p receiver => p.budget receiver c
  | .deliver d _ _ receiver => if d = c then passLimit * receiver.waiting.length else 0
  | .wake d _ waiting _ _ => if d = c then passLimit * waiting.length else 0

namespace Machine

/-- The passes that are running, innermost first, each beside its context. -/
def sites (m : Machine K N V σ B) : List (ContextId × Pass K) :=
  m.focus.sites ++ m.stack.flatMap fun frame => frame.asker.sites frame.context

/-- How many passes of the cache are running. -/
def running (m : Machine K N V σ B) (c : CacheId) : Nat := m.sites.countP (·.2.cache = c)

/-- How many passes may be started in the cache without another miss. -/
def budget (m : Machine K N V σ B) (c : CacheId) : Nat :=
  m.focus.budget c + (m.stack.map fun frame => frame.asker.budget c).sum

/-- A routine makes a context, or commits one. -/
def byHand (m : Machine K N V σ B) : Bool :=
  match m.focus with
  | .run (.perform (.newContext _ _) _) => true
  | .run (.perform (.createContext _ _ _) _) => true
  | .run (.perform (.commit _) _) => true
  | _ => false

variable [DecidableEq K] [BEq V] [ToString K]

/-- The next step ends a pass of the cache without a decision on its commit: the builder has come to
an error, the commit is refused, or a panic unwinds the pass. -/
def givesUp (m : Machine K N V σ B) (c : CacheId) : Bool :=
  match m.focus, m.stack with
  | .run (.panic _), ⟨_, _, _, .pass p _⟩ :: _ => p.cache = c
  | .reply _ _ (.error _) (.pass p _), _ => p.cache = c
  | .reply x _ (.ok (some _)) (.pass p _), _ =>
    p.cache = c && (m.world.commit x).any fun (answer, _) => !answer.isOk
  | _, _ => false

end Machine

/-! ### What a step does to passes -/

section Steps

variable [DecidableEq K] [DecidableEq N] [BEq V] [ToString K]

/-- What a step does to the passes that are running. -/
inductive PassStep (body : B → ContextId → K → Body K N V σ B) (m m' : Machine K N V σ B) : Prop
  | kept (sites : m'.sites = m.sites)
      (budget : ∀ c,
        m'.budget c ≤ m.budget c + passLimit * (m.incidents body).count (c, .getMiss))
      (uncounted : ∀ i ∈ m.incidents body, i.2 ≠ .pass ∧ i.2 ≠ .commit ∧ i.2 ≠ .commitConflict)
      (goesOn : ∀ c, m.givesUp c = false)
  /-- A pass is started in a context of its cache. -/
  | started (x : ContextId) (p : Pass K) (sites : m'.sites = (x, p) :: m.sites)
      (parent : m'.world.parent? x = some p.cache) (budget : ∀ c,
        m'.budget c + (if p.cache = c then 1 else 0) ≤ m.budget c)
      (counted : m.incidents body = [(p.cache, .pass)]) (goesOn : ∀ c, m.givesUp c = false)
  /-- The commit of the innermost pass is decided. -/
  | decided (x : ContextId) (p : Pass K) (published : Bool) (sites : m.sites = (x, p) :: m'.sites)
      (budget : ∀ c, m'.budget c ≤ m.budget c)
      (committed : ∃ w, m.world.commit x = some (.ok published, w))
      (counted : m.incidents body = m.world.decided x) (goesOn : ∀ c, m.givesUp c = false)
  /-- The innermost pass is given up. -/
  | givenUp (x : ContextId) (p : Pass K) (sites : m.sites = (x, p) :: m'.sites)
      (budget : ∀ c, m'.budget c ≤ m.budget c) (counted : m.incidents body = [])
      (givesUp : ∀ c, m.givesUp c = decide (p.cache = c))

namespace PassStep

variable {body : B → ContextId → K → Body K N V σ B} {m m' : Machine K N V σ B}

/-- A pass that is started is running from then on, until its commit is decided or it is given
up. -/
theorem balance (h : PassStep body m m')
    (hsites : ∀ q ∈ m.sites, m.world.parent? q.1 = some q.2.cache) (c : CacheId) :
    (m.incidents body).count (c, .pass) + m.running c =
      m'.running c + (m.incidents body).count (c, .commit) +
        (m.incidents body).count (c, .commitConflict) + (m.givesUp c).toNat := by
  cases h with
  | kept sites budget uncounted goesOn =>
      have hnone (e : Metrics.Event) (he : e = .pass ∨ e = .commit ∨ e = .commitConflict) :
          (m.incidents body).count (c, e) = 0 := by
        refine List.count_eq_zero.2 fun hi => ?_
        obtain ⟨hpass, hcommit, hconflict⟩ := uncounted _ hi
        rcases he with he | he | he
        · exact hpass he
        · exact hcommit he
        · exact hconflict he
      simp [hnone, Machine.running, sites, goesOn]
  | started x p sites parent budget counted goesOn =>
      rw [Machine.running, Machine.running, sites, counted, goesOn, List.countP_cons]
      by_cases hc : p.cache = c <;> simp [hc, Nat.add_comm]
  | decided x p published sites budget committed counted goesOn =>
      have hparent : m.world.parent? x = some p.cache := hsites (x, p) (by simp [sites])
      obtain ⟨w, hcommit⟩ := committed
      rw [Machine.running, Machine.running, sites, counted, goesOn, List.countP_cons,
        World.decided, hparent, hcommit]
      by_cases hc : p.cache = c <;> cases published <;> simp [hc]
  | givenUp x p sites budget counted givesUp =>
      rw [Machine.running, Machine.running, sites, counted, givesUp, List.countP_cons]
      by_cases hc : p.cache = c <;> simp [hc]

/-- A pass is paid for by the budget of the machine, and a thread that misses its key adds four
passes to it. -/
theorem affords (h : PassStep body m m') (c : CacheId) :
    m'.budget c + (m.incidents body).count (c, .pass) ≤
      m.budget c + passLimit * (m.incidents body).count (c, .getMiss) := by
  cases h with
  | kept sites budget uncounted goesOn =>
      have hnone : (m.incidents body).count (c, .pass) = 0 :=
        List.count_eq_zero.2 fun hi => (uncounted _ hi).1 rfl
      rw [hnone]
      exact budget c
  | started x p sites parent budget counted goesOn =>
      have hspent := budget c
      rw [counted]
      by_cases hc : p.cache = c
      · simpa [hc] using hspent
      · simpa [hc] using hspent
  | decided x p published sites budget committed counted goesOn =>
      have hnone : (m.world.decided x).count (c, .pass) = 0 :=
        List.count_eq_zero.2 fun hi => World.decided_other _ hi trivial
      rw [counted, hnone]
      exact Nat.le_add_right_of_le (budget c)
  | givenUp x p sites budget counted givesUp =>
      rw [counted]
      exact budget c

/-- Every pass that is running has a context of its cache. -/
theorem sited (h : PassStep body m m') (hgrows : m.world.Grows m'.world)
    (hsites : ∀ q ∈ m.sites, m.world.parent? q.1 = some q.2.cache) :
    ∀ q ∈ m'.sites, m'.world.parent? q.1 = some q.2.cache := by
  intro q hq
  cases h with
  | kept sites budget uncounted goesOn =>
      rw [sites] at hq
      exact hgrows.parent (hsites q hq)
  | started x p sites parent budget counted goesOn =>
      rw [sites] at hq
      rcases List.mem_cons.1 hq with rfl | hq
      · exact parent
      · exact hgrows.parent (hsites q hq)
  | decided x p published sites budget committed counted goesOn =>
      exact hgrows.parent (hsites q (sites ▸ List.mem_cons_of_mem _ hq))
  | givenUp x p sites budget counted givesUp =>
      exact hgrows.parent (hsites q (sites ▸ List.mem_cons_of_mem _ hq))

end PassStep

/-! ### Every step -/

omit [DecidableEq N] [BEq V] in
/-- A request that misses counts a call and a miss. -/
theorem World.Misses.requested {w : World K N V σ B} {c : CacheId} {k : K} (h : w.Misses c k) :
    w.requested c k = [(c, .getCall), (c, .getMiss)] := by
  obtain ⟨cache, hcache, hreads⟩ := h
  cases hreads with
  | missed owns unpublished unreplayable builder =>
      simp [World.requested, hcache, Cache.requested, Cache.finds, owns, unpublished, unreplayable]

omit [DecidableEq N] [BEq V] in
/-- Threads that wait for a key have missed it, and each of them pays for four passes. -/
theorem World.crowd_pays {w : World K N V σ B} {c : CacheId} {k : K} {n : Nat}
    {waiting : List ThreadId} (hlength : waiting.length ≤ n)
    (hmisses : waiting ≠ [] → w.Misses c k) (d : CacheId) :
    (if c = d then passLimit * waiting.length else 0) ≤
      passLimit * (List.replicate n (w.requested c k)).flatten.count (d, .getMiss) := by
  split
  · rename_i hcd
    subst hcd
    cases waiting with
    | nil => exact Nat.zero_le _
    | cons thread rest =>
        have hmissed := hmisses (List.cons_ne_nil _ _)
        rw [hmissed.requested, List.count_flatten, List.map_replicate]
        simpa using Nat.mul_le_mul_left passLimit hlength
  · exact Nat.zero_le _

omit [DecidableEq N] [BEq V] [ToString K] in
/-- A request counts neither passes nor commits. -/
theorem World.requested_other {w : World K N V σ B} {c : CacheId} {k : K} :
    ∀ i ∈ w.requested c k, i.2 ≠ .pass ∧ i.2 ≠ .commit ∧ i.2 ≠ .commitConflict := by
  intro i hi
  rcases World.requested_events i hi with he | he | he | he <;> simp [he]

namespace PassStep

variable {body : B → ContextId → K → Body K N V σ B} {m m' : Machine K N V σ B}

/-- A step that counts nothing, and leaves the passes as they are. -/
theorem silent (sites : m'.sites = m.sites) (budget : ∀ c, m'.budget c ≤ m.budget c)
    (uncounted : m.incidents body = []) (goesOn : ∀ c, m.givesUp c = false) :
    PassStep body m m' :=
  .kept sites (fun c => Nat.le_add_right_of_le (budget c)) (by simp [uncounted]) goesOn

/-- Steps of a routine, by cases on what the routine does. -/
theorem of_run {b : Body K N V σ B} (hfocus : m.focus = .run b) (hhand : m.byHand = false)
    (h : m.step body = some m') : PassStep body m m' := by
  obtain ⟨w, focus, stack⟩ := m
  obtain rfl : focus = .run b := hfocus
  have hreturned {frame : Frame K N V σ B} {rest : List (Frame K N V σ B)} (c : CacheId) :
      frame.asker.budget c + (rest.map fun frame => frame.asker.budget c).sum ≤
        0 + ((frame :: rest).map fun frame => frame.asker.budget c).sum :=
    Nat.le_of_eq (Nat.zero_add _).symm
  cases Transition.of_step h with
  | returnError e => exact silent rfl hreturned rfl fun _ => rfl
  | returnRefused e => exact silent rfl hreturned rfl fun _ => rfl
  | returnRecorded recorded => exact silent rfl hreturned rfl fun _ => rfl
  | unwindRoutine message =>
      exact silent rfl (fun c => by simp [Machine.budget, Focus.budget, Asker.budget]) rfl
        fun _ => rfl
  | @unwindPass _ w' x k thread p receiver rest message idles =>
      refine .givenUp x p rfl (fun c => ?_) rfl fun c => rfl
      simp only [Machine.budget, Focus.budget, List.map_cons, List.sum_cons, Asker.budget,
        Pass.budget]
      split <;> omega
  | perform r next answered =>
      refine silent rfl (fun c => Nat.le_refl _) ?_ fun _ => rfl
      cases r with
      | commit x => simp [Machine.byHand] at hhand
      | _ => rfl
  | build => exact silent rfl (fun c => Nat.le_refl _) rfl fun _ => rfl
  | @get _ w' c k next focus _ idles reached =>
      have hother : ∀ i ∈ w.requested c k, i.2 ≠ .pass ∧ i.2 ≠ .commit ∧ i.2 ≠ .commitConflict :=
        World.requested_other
      cases reached with
      | outcome r stored =>
          refine .kept rfl (fun d => ?_) hother fun _ => rfl
          simp [Machine.budget, Focus.budget, Receiver.waiting]
      | claimed thread =>
          have hmisses : w.Misses c k := Machine.misses_of_get rfl h rfl
          refine .kept rfl (fun d => ?_) hother fun _ => rfl
          have hincidents : (⟨w, .run (.get c k next), stack⟩ : Machine K N V σ B).incidents body =
              [(c, .getCall), (c, .getMiss)] := hmisses.requested
          rw [hincidents]
          by_cases hcd : c = d <;>
            simp [Machine.budget, Focus.budget, Pass.budget, Receiver.waiting, hcd, Nat.add_comm]
  | @race _ w' c k n next waiting outcomes _ idles stored =>
      obtain ⟨waiting', outcomes', hwake, -, hlength, hmisses⟩ := Machine.race_inv rfl h
      obtain ⟨-, -, rfl, -, -⟩ := Focus.wake.inj hwake
      refine .kept rfl (fun d => ?_) (fun i hi => ?_) fun _ => rfl
      -- Each thread that has to derive the key has paid for four passes with its miss.
      · have hpaid := World.crowd_pays (w := w) hlength hmisses d
        simp only [Machine.budget, Focus.budget, Machine.incidents, Nat.zero_add]
        omega
      · obtain ⟨l, hl, hi⟩ := List.mem_flatten.1 hi
        rw [List.eq_of_mem_replicate hl] at hi
        exact World.requested_other i hi

/-- A request within a pass leaves the passes as they are, and counts none. -/
theorem of_ask {x : ContextId} {k : K} {asker : Asker K N V σ B}
    (hfocus : m.focus = .ask x k asker) (h : m.step body = some m') : PassStep body m m' := by
  obtain ⟨w, focus, stack⟩ := m
  obtain rfl : focus = .ask x k asker := hfocus
  have hother : ∀ i ∈ (⟨w, .ask x k asker, stack⟩ : Machine K N V σ B).incidents body,
      i.2 ≠ .pass ∧ i.2 ≠ .commit ∧ i.2 ≠ .commitConflict := by
    intro i hi
    cases hc : w.parent? x with
    | none => simp [Machine.incidents, hc] at hi
    | some c =>
        simp only [Machine.incidents, hc, Option.elim_some, Machine.asked, List.map_append,
          List.map_map, List.mem_append, List.mem_map] at hi
        rcases hi with ⟨l, -, rfl⟩ | ⟨l, -, rfl⟩ <;> simp
  cases Transition.of_step h with
  | askAnswered answered => exact .kept rfl (fun c => Nat.le_add_right _ _) hother fun _ => rfl
  | askBuild b missed =>
      refine .kept rfl (fun c => ?_) hother fun _ => rfl
      simp [Machine.budget, Focus.budget]

omit [DecidableEq K] [DecidableEq N] [BEq V] [ToString K] in
/-- The innermost pass ends, and its outcome is delivered to the threads that still wait. -/
theorem budget_settled {w w' : World K N V σ B} {stack : List (Frame K N V σ B)} (x : ContextId)
    (k : K) (answer : Except RequestError (Option V)) (p : Pass K) (outcome : Outcome V)
    (receiver : Receiver K N V σ B) (c : CacheId) :
    (⟨w', .deliver p.cache p.key outcome receiver, stack⟩ : Machine K N V σ B).budget c ≤
      (⟨w, .reply x k answer (.pass p receiver), stack⟩ : Machine K N V σ B).budget c := by
  simp only [Machine.budget, Focus.budget, Asker.budget, Pass.budget]
  split <;> omega

/-- A reply to a pass ends the pass, or leaves it to the next attempt. -/
theorem of_reply {x : ContextId} {k : K} {answer : Except RequestError (Option V)}
    {asker : Asker K N V σ B} (hfocus : m.focus = .reply x k answer asker)
    (hanswer : answer ≠ .ok none) (h : m.step body = some m') : PassStep body m m' := by
  obtain ⟨w, focus, stack⟩ := m
  obtain rfl : focus = .reply x k answer asker := hfocus
  cases asker with
  | routine next =>
      obtain rfl := Option.some.inj h
      refine silent rfl (fun c => Nat.le_refl _) ?_ fun c => ?_ <;>
        rcases answer with e | _ | v <;> rfl
  | pass p receiver =>
      rcases answer with e | _ | v
      · simp only [Machine.step, Machine.stepReply, World.onCache, bind, Option.bind_eq_some_iff,
          Option.map_eq_some_iff] at h
        obtain ⟨-, ⟨cache, hcache, rfl⟩, h⟩ := h
        obtain ⟨w', -, rfl⟩ := Machine.settle_inv h
        exact .givenUp x p rfl (budget_settled x k _ p _ receiver) rfl fun c => rfl
      · exact absurd rfl hanswer
      · simp only [Machine.step, Machine.stepReply, bind, Option.bind_eq_some_iff] at h
        obtain ⟨⟨committed, w₁⟩, hcommit, h⟩ := h
        have hgivesUp (c : CacheId) (hok : committed.isOk = true) :
            (⟨w, .reply x k (.ok (some v)) (.pass p receiver), stack⟩ :
              Machine K N V σ B).givesUp c = false := by
          simp [Machine.givesUp, hcommit, hok]
        rcases committed with e | _ | _
        · obtain ⟨w', -, rfl⟩ := Machine.settle_inv h
          refine .givenUp x p rfl (budget_settled x k _ p _ receiver) ?_ fun c => ?_
          · simp only [Machine.incidents, World.decided, hcommit]
            cases w.parent? x <;> rfl
          · simp [Machine.givesUp, hcommit, Except.isOk, Except.toBool]
        · simp only [Option.bind_eq_some_iff] at h
          obtain ⟨cache, -, h⟩ := h
          cases hp : cache.store.get? p.key with
          | some u =>
              simp only [hp] at h
              obtain ⟨w', -, rfl⟩ := Machine.settle_inv h
              exact .decided x p false rfl (budget_settled x k _ p _ receiver) ⟨w₁, hcommit⟩ rfl
                fun c => hgivesUp c rfl
          | none =>
              simp only [hp] at h
              obtain rfl := Option.some.inj h
              exact .decided x p false rfl (fun c => Nat.le_refl _) ⟨w₁, hcommit⟩ rfl
                fun c => hgivesUp c rfl
        · obtain ⟨w', -, rfl⟩ := Machine.settle_inv h
          exact .decided x p true rfl (budget_settled x k _ p _ receiver) ⟨w₁, hcommit⟩ rfl
            fun c => hgivesUp c rfl

/-- An attempt starts a pass, which is paid for by the budget, or gives up. -/
theorem of_attempt {p : Pass K} {receiver : Receiver K N V σ B}
    (hfocus : m.focus = .attempt p receiver) (h : m.step body = some m') :
    PassStep body m m' := by
  obtain ⟨w, focus, stack⟩ := m
  obtain rfl : focus = .attempt p receiver := hfocus
  rcases Machine.start_of_stepAttempt h with ⟨hleft, h⟩ |
    ⟨left, cache, x, w', hleft, -, hcreate, rfl⟩
  · obtain ⟨w', -, rfl⟩ := Machine.settle_inv h
    refine silent rfl (fun c => ?_) (if_pos hleft) fun _ => rfl
    simp only [Machine.budget, Focus.budget, Pass.budget]
    split <;> omega
  · obtain ⟨-, context, -, -, hx, -, hparent, -⟩ := World.createContext_inv hcreate
    refine .started x { p with left } rfl ?_ (fun c => ?_) (if_neg (by simp [hleft])) fun _ => rfl
    · exact (World.parent?_of_context? hx).trans hparent
    · simp only [Machine.budget, Machine.move, Focus.budget, Asker.budget, Pass.budget, hleft]
      split <;> omega

/-- The delivery of an outcome leaves the passes as they are. -/
theorem of_deliver {c : CacheId} {k : K} {outcome : Outcome V} {receiver : Receiver K N V σ B}
    (hfocus : m.focus = .deliver c k outcome receiver) (h : m.step body = some m') :
    PassStep body m m' := by
  obtain ⟨w, focus, stack⟩ := m
  obtain rfl : focus = .deliver c k outcome receiver := hfocus
  cases Transition.of_step h with
  | deliverReturned r =>
      refine silent rfl (fun d => ?_) rfl fun _ => rfl
      simp [Machine.budget, Focus.budget]
  | deliverPanicked message =>
      refine silent rfl (fun d => ?_) rfl fun _ => rfl
      simp [Machine.budget, Focus.budget]
  | deliverCrowd => exact silent rfl (fun d => Nat.le_refl _) rfl fun _ => rfl

/-- A thread that wakes up is answered, or takes over its share of the budget. -/
theorem of_wake {c : CacheId} {k : K} {waiting : List ThreadId} {outcomes : List (Outcome V)}
    {next : List (Outcome V) → Body K N V σ B} (hfocus : m.focus = .wake c k waiting outcomes next)
    (h : m.step body = some m') : PassStep body m m' := by
  obtain ⟨w, focus, stack⟩ := m
  obtain rfl : focus = .wake c k waiting outcomes next := hfocus
  cases waiting with
  | nil =>
      obtain rfl := Option.some.inj h
      refine silent rfl (fun d => ?_) rfl fun _ => rfl
      simp [Machine.budget, Machine.goto, Focus.budget]
  | cons thread waiting =>
      -- Four of the passes that were to be had are now those of the thread that has its turn.
      have hspent {focus : Focus K N V σ B} {w' : World K N V σ B}
          (hreached : Reached w c k (.crowd waiting outcomes next) focus) (d : CacheId) :
          (⟨w', focus, stack⟩ : Machine K N V σ B).budget d ≤
            (⟨w, .wake c k (thread :: waiting) outcomes next, stack⟩ :
              Machine K N V σ B).budget d := by
        cases hreached with
        | outcome r stored =>
            simp only [Machine.budget, Focus.budget, Receiver.waiting, List.length_cons,
              Nat.mul_add_one]
            split <;> omega
        | claimed thread =>
            simp only [Machine.budget, Focus.budget, Pass.budget, Receiver.waiting,
              List.length_cons, Nat.mul_add_one]
            split <;> omega
      have hother : ∀ i ∈ (⟨w, .wake c k (thread :: waiting) outcomes next, stack⟩ :
          Machine K N V σ B).incidents body,
          i.2 ≠ .pass ∧ i.2 ≠ .commit ∧ i.2 ≠ .commitConflict := by
        intro i hi
        simp only [Machine.incidents] at hi
        split at hi
        · obtain rfl := List.mem_singleton.1 hi
          simp
        · simp at hi
      obtain ⟨-, hstack, hreached⟩ := Machine.claim_inv h
      obtain ⟨w', focus, stack'⟩ := m'
      obtain rfl : stack' = stack := hstack
      refine .kept ?_ (fun d => Nat.le_add_right_of_le (hspent hreached d)) hother fun _ => rfl
      cases hreached <;> rfl

/-- Every step that makes no context by hand starts a pass, ends the innermost one, or leaves the
passes as they are. -/
theorem of_step (h : m.step body = some m') (hhand : m.byHand = false)
    (hanswered : ∀ x k asker, m.focus ≠ .reply x k (.ok none) asker) : PassStep body m m' := by
  cases hfocus : m.focus with
  | run b => exact of_run hfocus hhand h
  | ask x k asker => exact of_ask hfocus h
  | reply x k answer asker =>
      exact of_reply hfocus (fun hanswer => hanswered x k asker (hanswer ▸ hfocus)) h
  | attempt p receiver => exact of_attempt hfocus h
  | deliver c k outcome receiver => exact of_deliver hfocus h
  | wake c k waiting outcomes next => exact of_wake hfocus h

end PassStep

end Steps

end DerivationCache
