import DerivationCache.Machine
import DerivationCache.Proofs.Operation

/-!
# Transitions

`Transition` is what a step of a machine can do, one rule for each way a step can go, with the
world before and after it related by what the operations do. Bookkeeping (claims, counters,
remembered failures) is `World.Idles` throughout. Every invariant of a run is proved by cases on
these rules, and the step function is not opened for it again. What a step does to the claims and to
the counters, which the rules leave open, is read off the lemmas on claims, releases and starts, or
off the step function where it is needed.

## Main results

* `Machine.claims_of_claim`, `Machine.release_of_settle`, `Machine.start_of_stepAttempt`: how a
  thread that reaches for a missed key, the end of a claimed request, and an attempt can end, with
  the cache that each leaves.
* `Transition.of_step`: every step is a transition.
* `Transition.obeys`: a transition changes the world no more than its demand says.
* `Transition.reply`: what a request within a pass is answered with has something behind it.
-/

namespace DerivationCache

variable {K N V σ B : Type}

/-! ### Doors that change no entry -/

namespace Cache

variable [DecidableEq K]

/-- Replaying a failure changes neither configuration nor store. -/
theorem replay_keeps (c : Cache K V σ B) (k : K) :
    (c.replay k).2.config = c.config ∧ (c.replay k).2.store = c.store := by
  rw [replay]
  split
  · split <;> exact ⟨rfl, rfl⟩
  · exact ⟨rfl, rfl⟩

/-- Remembering an error changes neither configuration nor store. -/
theorem remember_keeps (c : Cache K V σ B) (k : K) (e : RequestError) :
    (c.remember k e).config = c.config ∧ (c.remember k e).store = c.store := by
  cases e with
  | violation e => exact ⟨rfl, rfl⟩
  | conflict key => exact ⟨rfl, rfl⟩
  | failure f =>
      rw [remember]
      split <;> exact ⟨rfl, rfl⟩

/-- Taking a claim changes neither configuration nor store. -/
theorem claim_keeps {c c' : Cache K V σ B} {k : K} {thread : ThreadId}
    (h : c.claim k thread = .claimed c') : c'.config = c.config ∧ c'.store = c.store := by
  rw [claim] at h
  split at h
  · obtain rfl := ClaimOutcome.claimed.inj h
    exact ⟨rfl, rfl⟩
  · split at h <;> simp at h

/-- A request that is answered with a value before the key is claimed is a hit. -/
theorem request_inv [ToString K] {c c' : Cache K V σ B} {k : K}
    {a : Option (Except RequestError V)} (h : c.request k = (a, c')) :
    c'.config = c.config ∧ c'.store = c.store ∧
      ∀ v, a = some (.ok v) → c.store.get? k = some v := by
  rw [request] at h
  split at h
  · obtain ⟨rfl, rfl⟩ := Prod.mk.inj h
    exact ⟨rfl, rfl, fun v hv => by simp at hv⟩
  · obtain ⟨hconfig, hstore⟩ := replay_keeps (c.count .getCall) k
    dsimp only at h
    split at h
    · rename_i v hv
      obtain ⟨rfl, rfl⟩ := Prod.mk.inj h
      refine ⟨rfl, rfl, fun u hu => ?_⟩
      obtain rfl : v = u := by simpa using hu
      exact hv
    · split at h
      · rename_i hreplay
        rw [hreplay] at hconfig hstore
        obtain ⟨rfl, rfl⟩ := Prod.mk.inj h
        exact ⟨hconfig, hstore, fun v hv => by simp at hv⟩
      · rename_i hreplay
        rw [hreplay] at hconfig hstore
        split at h
        · obtain ⟨rfl, rfl⟩ := Prod.mk.inj h
          exact ⟨hconfig, hstore, fun v hv => by simp at hv⟩
        · obtain ⟨rfl, rfl⟩ := Prod.mk.inj h
          exact ⟨hconfig, hstore, fun v hv => by simp at hv⟩

/-- A claimed key that is found to have a value now has a published one. -/
theorem recheck_inv {c c' : Cache K V σ B} {k : K} {a : Option (Except RequestError V)}
    (h : c.recheck k = (a, c')) :
    c'.config = c.config ∧ c'.store = c.store ∧
      ∀ v, a = some (.ok v) → c.store.get? k = some v := by
  rw [recheck] at h
  split at h
  · rename_i v hv
    obtain ⟨rfl, rfl⟩ := Prod.mk.inj h
    refine ⟨rfl, rfl, fun u hu => ?_⟩
    obtain rfl : v = u := by simpa using hu
    exact hv
  · obtain ⟨hconfig, hstore⟩ := replay_keeps c k
    split at h
    · rename_i hreplay
      rw [hreplay] at hconfig hstore
      obtain ⟨rfl, rfl⟩ := Prod.mk.inj h
      exact ⟨hconfig, hstore, fun v hv => by simp at hv⟩
    · rename_i hreplay
      rw [hreplay] at hconfig hstore
      obtain ⟨rfl, rfl⟩ := Prod.mk.inj h
      exact ⟨hconfig, hstore, fun v hv => by simp at hv⟩

/-- Threads that are answered with a value before the key is claimed are answered by hits. -/
theorem requestAll_inv [ToString K] (k : K) (threads : List ThreadId) (c : Cache K V σ B) :
    (Machine.requestAll k threads c).2.config = c.config ∧
      (Machine.requestAll k threads c).2.store = c.store ∧
      ∀ v, .returned (.ok v) ∈ (Machine.requestAll k threads c).1.1 →
        c.store.get? k = some v := by
  induction threads generalizing c with
  | nil => exact ⟨rfl, rfl, fun v hv => by simp [Machine.requestAll] at hv⟩
  | cons t rest ih =>
      rcases hr : c.request k with ⟨a, c₁⟩
      obtain ⟨hconfig, hstore, hhit⟩ := request_inv hr
      obtain ⟨hconfig', hstore', hrest⟩ := ih c₁
      rw [hstore] at hrest
      cases a with
      | none =>
          simp only [Machine.requestAll, hr]
          exact ⟨hconfig'.trans hconfig, hstore'.trans hstore, hrest⟩
      | some r =>
          simp only [Machine.requestAll, hr]
          refine ⟨hconfig'.trans hconfig, hstore'.trans hstore, fun v hv => ?_⟩
          rcases List.mem_cons.1 hv with hv | hv
          · obtain rfl := Outcome.returned.inj hv
            exact hhit v rfl
          · exact hrest v hv

end Cache

/-! ### The rules -/

variable [DecidableEq K] [DecidableEq N] [BEq V] [ToString K]

/-- What a thread that asks for a derived value, or reaches for the key it has missed, comes to:
an outcome, which is published if it is a value, or the claim of the key. -/
inductive Reached (w : World K N V σ B) (c : CacheId) (k : K) (receiver : Receiver K N V σ B) :
    Focus K N V σ B → Prop
  | outcome (r : Except RequestError V) (stored : ∀ v, r = .ok v → w.stored c k = some v) :
      Reached w c k receiver (.deliver c k (.returned r) receiver)
  | claimed (thread : ThreadId) : Reached w c k receiver
      (.attempt { cache := c, key := k, thread, left := passLimit } receiver)

omit [DecidableEq N] [BEq V] [ToString K] in
/-- What a thread comes to depends on the published value of its key alone. -/
theorem Reached.congr {w w' : World K N V σ B} {c : CacheId} {k : K}
    {receiver : Receiver K N V σ B} {focus : Focus K N V σ B} (h : Reached w' c k receiver focus)
    (hstored : w'.stored c k = w.stored c k) : Reached w c k receiver focus := by
  cases h with
  | outcome r stored => exact .outcome r fun v hv => by rw [← hstored, stored v hv]
  | claimed thread => exact .claimed thread

/-- The steps that a machine can make. -/
inductive Transition (body : B → ContextId → K → Body K N V σ B) :
    Machine K N V σ B → Machine K N V σ B → Prop
  | returnError {w frame rest} (e : RequestError) :
      Transition body ⟨w, .run (.done (.error e)), frame :: rest⟩
        ⟨w, .reply frame.context frame.key (.error e) frame.asker, rest⟩
  | returnRefused {w frame rest v} (e : Violation) :
      Transition body ⟨w, .run (.done (.ok v)), frame :: rest⟩
        ⟨w, .reply frame.context frame.key (.error (.violation e)) frame.asker, rest⟩
  | returnRecorded {w w' frame rest v}
      (recorded : w.record frame.context frame.key v true = some (.ok (), w')) :
      Transition body ⟨w, .run (.done (.ok v)), frame :: rest⟩
        ⟨w', .reply frame.context frame.key (.ok (some v)) frame.asker, rest⟩
  | unwindRoutine {w x k thread next rest} (message : String) :
      Transition body ⟨w, .run (.panic message), ⟨x, k, thread, .routine next⟩ :: rest⟩
        ⟨w, .run (.panic message), rest⟩
  | unwindPass {w w' x k thread p receiver rest} (message : String) (idles : w.Idles w') :
      Transition body ⟨w, .run (.panic message), ⟨x, k, thread, .pass p receiver⟩ :: rest⟩
        ⟨w', .deliver p.cache p.key (.panicked message) receiver, rest⟩
  | perform {w w' stack} (r : Request K N V σ B) {a : r.Answer}
      (next : r.Answer → Body K N V σ B) (answered : w.answer r = some (a, w')) :
      Transition body ⟨w, .run (.perform r next), stack⟩ ⟨w', .run (next a), stack⟩
  | build {w x k next stack} :
      Transition body ⟨w, .run (.build x k next), stack⟩ ⟨w, .ask x k (.routine next), stack⟩
  | get {w w' c k next focus stack} (idles : w.Idles w')
      (reached : Reached w c k (.caller next) focus) :
      Transition body ⟨w, .run (.get c k next), stack⟩ ⟨w', focus, stack⟩
  | race {w w' c k n next waiting outcomes stack} (idles : w.Idles w')
      (stored : ∀ v, .returned (.ok v) ∈ outcomes → w.stored c k = some v) :
      Transition body ⟨w, .run (.race c k n next), stack⟩
        ⟨w', .wake c k waiting outcomes next, stack⟩
  | askAnswered {w w' x k asker answer stack}
      (answered : w.lookup x k = some (.answered answer, w')) :
      Transition body ⟨w, .ask x k asker, stack⟩ ⟨w', .reply x k answer asker, stack⟩
  | askBuild {w w' x k asker thread stack} (b : B)
      (missed : w.lookup x k = some (.build b, w')) :
      Transition body ⟨w, .ask x k asker, stack⟩
        ⟨w', .run (body b x k), ⟨x, k, thread, asker⟩ :: stack⟩
  | replyRoutine {w x k answer next stack} :
      Transition body ⟨w, .reply x k answer (.routine next), stack⟩ ⟨w, .run (next answer), stack⟩
  | passFailed {w w' x k answer p receiver stack} (e : RequestError) (idles : w.Idles w') :
      Transition body ⟨w, .reply x k answer (.pass p receiver), stack⟩
        ⟨w', .deliver p.cache p.key (.returned (.error e)) receiver, stack⟩
  | committed {w w₁ w' x k v p receiver stack} (commit : w.commit x = some (.ok true, w₁))
      (idles : w₁.Idles w') :
      Transition body ⟨w, .reply x k (.ok (some v)) (.pass p receiver), stack⟩
        ⟨w', .deliver p.cache p.key (.returned (.ok v)) receiver, stack⟩
  | conflictSettled {w w₁ w' x k v u p receiver stack}
      (commit : w.commit x = some (.ok false, w₁)) (stored : w₁.stored p.cache p.key = some u)
      (idles : w₁.Idles w') :
      Transition body ⟨w, .reply x k (.ok (some v)) (.pass p receiver), stack⟩
        ⟨w', .deliver p.cache p.key (.returned (.ok u)) receiver, stack⟩
  | conflictRetried {w w' x k v p receiver stack} (commit : w.commit x = some (.ok false, w')) :
      Transition body ⟨w, .reply x k (.ok (some v)) (.pass p receiver), stack⟩
        ⟨w', .attempt p receiver, stack⟩
  | exhausted {w w' p receiver stack} (e : RequestError) (idles : w.Idles w') :
      Transition body ⟨w, .attempt p receiver, stack⟩
        ⟨w', .deliver p.cache p.key (.returned (.error e)) receiver, stack⟩
  | attempt {w w₁ w' x p receiver stack} (left : Nat) (idles : w.Idles w₁)
      (created : w₁.createContext p.cache = some (x, w')) :
      Transition body ⟨w, .attempt p receiver, stack⟩
        ⟨w', .ask x p.key (.pass { p with left } receiver), stack⟩
  | deliverReturned {w c k next stack} (r : Except RequestError V) :
      Transition body ⟨w, .deliver c k (.returned r) (.caller next), stack⟩
        ⟨w, .run (next r), stack⟩
  | deliverPanicked {w c k next stack} (message : String) :
      Transition body ⟨w, .deliver c k (.panicked message) (.caller next), stack⟩
        ⟨w, .run (.panic message), stack⟩
  | deliverCrowd {w c k outcome waiting outcomes next stack} :
      Transition body ⟨w, .deliver c k outcome (.crowd waiting outcomes next), stack⟩
        ⟨w, .wake c k waiting (outcomes ++ [outcome]) next, stack⟩
  | wakeDone {w c k outcomes next stack} :
      Transition body ⟨w, .wake c k [] outcomes next, stack⟩ ⟨w, .run (next outcomes), stack⟩
  | wakeNext {w w' c k thread waiting outcomes next focus stack} (idles : w.Idles w')
      (reached : Reached w c k (.crowd waiting outcomes next) focus) :
      Transition body ⟨w, .wake c k (thread :: waiting) outcomes next, stack⟩ ⟨w', focus, stack⟩

namespace Machine

omit [DecidableEq K] [DecidableEq N] [BEq V] [ToString K] in
/-- What the next step of a machine tells the world to do. -/
def demand (m : Machine K N V σ B) : Demand K V :=
  match m.focus, m.stack with
  | .run (.perform r _), _ => r.demand
  | .run (.done (.ok v)), frame :: _ => .record frame.context frame.key v true
  | .ask x k _, _ => .request x k
  | .reply x _ (.ok (some _)) (.pass _ _), _ => .commit x
  | _, _ => .nothing

omit [DecidableEq K] [DecidableEq N] [BEq V] [ToString K] in
/-- A key is requested within a pass by nothing but a request for it. -/
theorem focus_of_demand_request {m : Machine K N V σ B} {x : ContextId} {k : K}
    (h : m.demand = .request x k) : ∃ asker, m.focus = .ask x k asker := by
  rw [demand] at h
  split at h
  · rename_i r next hfocus
    cases r <;> simp [Request.demand] at h
  · simp at h
  · rename_i y l asker hfocus
    obtain ⟨rfl, rfl⟩ := Demand.request.inj h
    exact ⟨asker, hfocus⟩
  · simp at h
  · simp at h

/-! ### Every step is a transition -/

/-- What reaching for a missed key comes to: the thread holds the key already, or it claims the key
and finds it answered meanwhile, or its claim stands. -/
inductive Claims (m : Machine K N V σ B) (c : CacheId) (k : K) (thread : ThreadId)
    (receiver : Receiver K N V σ B) : Machine K N V σ B → Prop
  | reentrant {cache} (current : m.world.cache? c = some cache)
      (held : cache.claim k thread = .reentrant) :
      Claims m c k thread receiver (m.goto (.deliver c k
        (.returned (.error (.violation (.unresolvableReentry (toString k))))) receiver))
  | answered {cache taken after r} (current : m.world.cache? c = some cache)
      (free : cache.claim k thread = .claimed taken) (found : taken.recheck k = (some r, after)) :
      Claims m c k thread receiver
        (m.move (m.world.setCache c (after.release k)) (.deliver c k (.returned r) receiver))
  | claimed {cache taken after} (current : m.world.cache? c = some cache)
      (free : cache.claim k thread = .claimed taken) (missed : taken.recheck k = (none, after)) :
      Claims m c k thread receiver (m.move (m.world.setCache c after)
        (.attempt { cache := c, key := k, thread, left := passLimit } receiver))

omit [DecidableEq N] [BEq V] in
/-- Reaching for a missed key comes to nothing else. -/
theorem claims_of_claim {m m' : Machine K N V σ B} {c : CacheId} {k : K} {thread : ThreadId}
    {receiver : Receiver K N V σ B} (h : m.claim c k thread receiver = some m') :
    m.Claims c k thread receiver m' := by
  simp only [claim, bind, Option.bind_eq_some_iff] at h
  obtain ⟨cache, hcache, h⟩ := h
  split at h
  · simp at h
  · rename_i hclaim
    obtain rfl := Option.some.inj h
    exact .reentrant hcache hclaim
  · rename_i taken hclaim
    split at h
    · rename_i r after hrecheck
      obtain rfl := Option.some.inj h
      exact .answered hcache hclaim hrecheck
    · rename_i after hrecheck
      obtain rfl := Option.some.inj h
      exact .claimed hcache hclaim hrecheck

omit [DecidableEq N] [BEq V] in
/-- Reaching for a missed key is bookkeeping. -/
theorem claim_inv {m m' : Machine K N V σ B} {c : CacheId} {k : K} {thread : ThreadId}
    {receiver : Receiver K N V σ B} (h : m.claim c k thread receiver = some m') :
    m.world.Idles m'.world ∧ m'.stack = m.stack ∧ Reached m.world c k receiver m'.focus := by
  cases claims_of_claim h with
  | reentrant current held =>
      exact ⟨World.Idles.refl _, rfl, .outcome _ fun v hv => by simp at hv⟩
  | @answered _ _ _ r current free found =>
      obtain ⟨hconfig, hstore⟩ := Cache.claim_keeps free
      obtain ⟨hconfig₂, hstore₂, hhit⟩ := Cache.recheck_inv found
      refine ⟨World.Idles.setCache current (hconfig₂.trans hconfig) (hstore₂.trans hstore), rfl,
        .outcome r fun v hv => ?_⟩
      rw [World.stored_of_cache? current, ← hstore]
      exact hhit v (by rw [hv])
  | claimed current free missed =>
      obtain ⟨hconfig, hstore⟩ := Cache.claim_keeps free
      obtain ⟨hconfig₂, hstore₂, -⟩ := Cache.recheck_inv missed
      exact ⟨World.Idles.setCache current (hconfig₂.trans hconfig) (hstore₂.trans hstore), rfl,
        .claimed thread⟩

omit [DecidableEq N] [BEq V] [ToString K] in
/-- A claimed request ends with the release of its key. -/
theorem release_of_settle {m m' : Machine K N V σ B} {p : Pass K} {outcome : Outcome V}
    {receiver : Receiver K N V σ B} (h : m.settle p outcome receiver = some m') :
    ∃ cache, m.world.cache? p.cache = some cache ∧
      m' = m.move (m.world.setCache p.cache (cache.release p.key))
        (.deliver p.cache p.key outcome receiver) := by
  simp only [settle, World.onCache, bind, Option.bind_eq_some_iff, Option.map_eq_some_iff,
    Option.pure_def, Option.some.injEq] at h
  obtain ⟨-, ⟨cache, hcache, rfl⟩, rfl⟩ := h
  exact ⟨cache, hcache, rfl⟩

omit [DecidableEq N] [BEq V] [ToString K] in
/-- The end of a claimed request is bookkeeping. -/
theorem settle_inv {m m' : Machine K N V σ B} {p : Pass K} {outcome : Outcome V}
    {receiver : Receiver K N V σ B} (h : m.settle p outcome receiver = some m') :
    ∃ w, m.world.Idles w ∧ m' = ⟨w, .deliver p.cache p.key outcome receiver, m.stack⟩ := by
  obtain ⟨cache, hcache, rfl⟩ := release_of_settle h
  have hidles : m.world.Idles (m.world.setCache p.cache (cache.release p.key)) :=
    World.Idles.setCache hcache rfl rfl
  exact ⟨_, hidles, rfl⟩

omit [DecidableEq N] [BEq V] in
/-- A pass is given up for a conflict if it has no start left. Otherwise it is counted, and starts
in a new context. -/
theorem start_of_stepAttempt {m m' : Machine K N V σ B} {p : Pass K}
    {receiver : Receiver K N V σ B} (h : m.stepAttempt p receiver = some m') :
    (p.left = 0 ∧
        m.settle p (.returned (.error (.conflict (toString p.key)))) receiver = some m') ∨
      ∃ left cache x w', p.left = left + 1 ∧ m.world.cache? p.cache = some cache ∧
        (m.world.setCache p.cache (cache.count .pass)).createContext p.cache = some (x, w') ∧
        m' = m.move w' (.ask x p.key (.pass { p with left } receiver)) := by
  rw [stepAttempt] at h
  split at h
  · rename_i hleft
    exact Or.inl ⟨hleft, h⟩
  · rename_i left hleft
    simp only [World.onCache, bind, Option.bind_eq_some_iff, Option.map_eq_some_iff] at h
    obtain ⟨-, ⟨cache, hcache, rfl⟩, ⟨x, w'⟩, hcreate, h⟩ := h
    exact Or.inr ⟨left, cache, x, w', hleft, hcache, hcreate, (Option.some.inj h).symm⟩

/-- A request that is answered at once leaves the world that its answer leaves. -/
theorem answer_of_step {body : B → ContextId → K → Body K N V σ B} {m m' : Machine K N V σ B}
    {r : Request K N V σ B} {next : r.Answer → Body K N V σ B}
    (hfocus : m.focus = .run (.perform r next)) (hstep : m.step body = some m') :
    ∃ a, m.world.answer r = some (a, m'.world) := by
  rw [step, hfocus] at hstep
  simp only [stepRun, bind, Option.bind_eq_some_iff] at hstep
  obtain ⟨⟨a, w⟩, hanswer, hstep⟩ := hstep
  obtain rfl := Option.some.inj hstep
  exact ⟨a, hanswer⟩

end Machine

namespace Transition

variable {body : B → ContextId → K → Body K N V σ B}

variable {w : World K N V σ B} {stack : List (Frame K N V σ B)} {m' : Machine K N V σ B}

/-- A builder that returns a value has it recorded. -/
theorem of_done {r : Except RequestError V}
    (h : Machine.stepRun ⟨w, .run (.done r), stack⟩ (.done r) = some m') :
    Transition body ⟨w, .run (.done r), stack⟩ m' := by
  cases stack with
  | nil => simp [Machine.stepRun] at h
  | cons frame rest =>
      cases r with
      | error e =>
          obtain rfl := Option.some.inj h
          exact .returnError e
      | ok v =>
          simp only [Machine.stepRun, bind, Option.bind_eq_some_iff] at h
          obtain ⟨⟨answer, w'⟩, hrecord, h⟩ := h
          cases answer with
          | error e =>
              obtain rfl := Option.some.inj h
              have hsame : w' = w := by
                rcases World.record_inv hrecord with ⟨hsame, -⟩ | ⟨he, -⟩
                · exact hsame
                · simp at he
              rw [hsame]
              exact .returnRefused e
          | ok u =>
              obtain rfl := Option.some.inj h
              exact .returnRecorded hrecord

/-- A panic unwinds one call. -/
theorem of_panic {message : String}
    (h : Machine.stepRun ⟨w, .run (.panic message), stack⟩ (.panic message) = some m') :
    Transition body ⟨w, .run (.panic message), stack⟩ m' := by
  cases stack with
  | nil => simp [Machine.stepRun] at h
  | cons frame rest =>
      obtain ⟨x, k, thread, asker⟩ := frame
      cases asker with
      | routine next =>
          obtain rfl := Option.some.inj h
          exact .unwindRoutine message
      | pass p receiver =>
          obtain ⟨w', hidles, rfl⟩ := Machine.settle_inv h
          exact .unwindPass message hidles

/-- A derived value is requested: there is an outcome at once, or the key is reached for. -/
theorem of_get {c : CacheId} {k : K} {next : Except RequestError V → Body K N V σ B}
    (h : Machine.stepRun ⟨w, .run (.get c k next), stack⟩ (.get c k next) = some m') :
    Transition body ⟨w, .run (.get c k next), stack⟩ m' := by
  simp only [Machine.stepRun, World.onCache, bind, Option.bind_eq_some_iff,
    Option.map_eq_some_iff] at h
  obtain ⟨⟨answer, w₁⟩, ⟨cache, hcache, hrequest⟩, h⟩ := h
  rcases hr : cache.request k with ⟨a, cache₁⟩
  rw [hr] at hrequest
  obtain ⟨rfl, rfl⟩ := Prod.mk.inj hrequest
  obtain ⟨hconfig, hstore, hhit⟩ := Cache.request_inv hr
  have hidles : w.Idles (w.setCache c cache₁) := World.Idles.setCache hcache hconfig hstore
  cases a with
  | some r =>
      obtain rfl := Option.some.inj h
      refine .get hidles (.outcome r fun v hv => ?_)
      rw [World.stored_of_cache? hcache]
      exact hhit v (by rw [hv])
  | none =>
      obtain ⟨hclaim, hstack, hreached⟩ := Machine.claim_inv h
      obtain ⟨w', focus, stack'⟩ := m'
      obtain rfl : stack' = stack := hstack
      exact .get (hidles.trans hclaim) (hreached.congr (hidles.stored c k))

/-- Several threads request one derived value: those that are answered at once are answered with
what is published. -/
theorem of_race {c : CacheId} {k : K} {n : Nat} {next : List (Outcome V) → Body K N V σ B}
    (h : Machine.stepRun ⟨w, .run (.race c k n next), stack⟩ (.race c k n next) = some m') :
    Transition body ⟨w, .run (.race c k n next), stack⟩ m' := by
  simp only [Machine.stepRun, World.onCache, bind, Option.bind_eq_some_iff,
    Option.map_eq_some_iff] at h
  obtain ⟨⟨⟨outcomes, waiting⟩, w₁⟩, ⟨cache, hcache, hrequest⟩, h⟩ := h
  obtain ⟨hconfig, hstore, hhit⟩ := Cache.requestAll_inv k
    ((List.range n).map fun i => (⟨w.threads + i⟩ : ThreadId)) cache
  obtain ⟨hanswers, rfl⟩ := Prod.mk.inj hrequest
  obtain rfl := Option.some.inj h
  refine .race ?_ fun v hv => ?_
  · have hidles := World.Idles.setCache hcache hconfig hstore
    exact hidles.trans ⟨World.Grows.of_eq rfl rfl, rfl, rfl, fun _ _ => rfl⟩
  · rw [World.stored_of_cache? hcache]
    exact hhit v (by rw [hanswers]; exact hv)

/-- The transition of a step that a routine makes, by cases on what the routine does. -/
theorem of_stepRun {r : Body K N V σ B}
    (h : Machine.stepRun ⟨w, .run r, stack⟩ r = some m') :
    Transition body ⟨w, .run r, stack⟩ m' := by
  cases r with
  | done r => exact of_done h
  | panic message => exact of_panic h
  | halt => simp [Machine.stepRun] at h
  | perform r next =>
      simp only [Machine.stepRun, bind, Option.bind_eq_some_iff] at h
      obtain ⟨⟨answer, w'⟩, hanswer, h⟩ := h
      obtain rfl := Option.some.inj h
      exact .perform r next hanswer
  | build x k next =>
      obtain rfl := Option.some.inj h
      exact .build
  | get c k next => exact of_get h
  | race c k n next => exact of_race h

/-- The transition of a request within a pass. -/
theorem of_stepAsk {x : ContextId} {k : K} {asker : Asker K N V σ B}
    (h : Machine.stepAsk body ⟨w, .ask x k asker, stack⟩ x k asker = some m') :
    Transition body ⟨w, .ask x k asker, stack⟩ m' := by
  simp only [Machine.stepAsk, bind, Option.bind_eq_some_iff] at h
  obtain ⟨⟨l, w'⟩, hlookup, h⟩ := h
  cases l with
  | answered answer =>
      obtain rfl := Option.some.inj h
      exact .askAnswered hlookup
  | build b =>
      obtain rfl := Option.some.inj h
      exact .askBuild b hlookup

/-- A pass has its value, and its context is committed. -/
theorem of_commit {x : ContextId} {k : K} {v : V} {p : Pass K} {receiver : Receiver K N V σ B}
    (h : Machine.stepReply ⟨w, .reply x k (.ok (some v)) (.pass p receiver), stack⟩ x k
      (.ok (some v)) (.pass p receiver) = some m') :
    Transition body ⟨w, .reply x k (.ok (some v)) (.pass p receiver), stack⟩ m' := by
  simp only [Machine.stepReply, bind, Option.bind_eq_some_iff] at h
  obtain ⟨⟨decided, w₁⟩, hcommit, h⟩ := h
  rcases decided with e | _ | _
  · obtain rfl := World.commit_error hcommit
    obtain ⟨w', hidles, rfl⟩ := Machine.settle_inv h
    exact .passFailed _ hidles
  · simp only [Option.bind_eq_some_iff] at h
    obtain ⟨cache, hcache, h⟩ := h
    cases hp : cache.store.get? p.key with
    | some u =>
        simp only [hp] at h
        obtain ⟨w', hidles, rfl⟩ := Machine.settle_inv h
        refine .conflictSettled hcommit ?_ hidles
        rw [World.stored_of_cache? hcache, hp]
    | none =>
        simp only [hp] at h
        obtain rfl := Option.some.inj h
        exact .conflictRetried hcommit
  · obtain ⟨w', hidles, rfl⟩ := Machine.settle_inv h
    exact .committed hcommit hidles

/-- The transition of a pass that is replied to. -/
theorem of_stepReply {x : ContextId} {k : K} {answer : Except RequestError (Option V)}
    {asker : Asker K N V σ B}
    (h : Machine.stepReply ⟨w, .reply x k answer asker, stack⟩ x k answer asker = some m') :
    Transition body ⟨w, .reply x k answer asker, stack⟩ m' := by
  cases asker with
  | routine next =>
      obtain rfl := Option.some.inj h
      exact .replyRoutine
  | pass p receiver =>
      cases answer with
      | error e =>
          simp only [Machine.stepReply, World.onCache, bind, Option.bind_eq_some_iff,
            Option.map_eq_some_iff] at h
          obtain ⟨-, ⟨cache, hcache, rfl⟩, h⟩ := h
          obtain ⟨hconfig, hstore⟩ := Cache.remember_keeps cache p.key e
          obtain ⟨w', hidles, rfl⟩ := Machine.settle_inv h
          exact .passFailed e ((World.Idles.setCache hcache hconfig hstore).trans hidles)
      | ok answer =>
          cases answer with
          | none =>
              obtain ⟨w', hidles, rfl⟩ := Machine.settle_inv h
              exact .passFailed _ hidles
          | some v => exact of_commit h

/-- The transition of an attempt. -/
theorem of_stepAttempt {p : Pass K} {receiver : Receiver K N V σ B}
    (h : Machine.stepAttempt ⟨w, .attempt p receiver, stack⟩ p receiver = some m') :
    Transition body ⟨w, .attempt p receiver, stack⟩ m' := by
  rcases Machine.start_of_stepAttempt h with ⟨-, h⟩ |
    ⟨left, cache, x, w', -, hcache, hcreate, rfl⟩
  · obtain ⟨w', hidles, rfl⟩ := Machine.settle_inv h
    exact .exhausted _ hidles
  · have hidles : w.Idles (w.setCache p.cache (cache.count .pass)) :=
      World.Idles.setCache hcache rfl rfl
    exact .attempt left hidles hcreate

/-- The transition of an outcome that is delivered. -/
theorem of_stepDeliver {c : CacheId} {k : K} {outcome : Outcome V}
    {receiver : Receiver K N V σ B} :
    Transition body ⟨w, .deliver c k outcome receiver, stack⟩
      (Machine.stepDeliver ⟨w, .deliver c k outcome receiver, stack⟩ c k outcome receiver) := by
  cases receiver with
  | crowd waiting outcomes next => exact .deliverCrowd
  | caller next =>
      cases outcome with
      | returned r => exact .deliverReturned r
      | panicked message => exact .deliverPanicked message

/-- Every step is a transition. -/
theorem of_step {m m' : Machine K N V σ B} (h : m.step body = some m') :
    Transition body m m' := by
  obtain ⟨w, focus, stack⟩ := m
  cases focus with
  | run r => exact of_stepRun h
  | ask x k asker => exact of_stepAsk h
  | reply x k answer asker => exact of_stepReply h
  | attempt p receiver => exact of_stepAttempt h
  | deliver c k outcome receiver =>
      obtain rfl := Option.some.inj h
      exact of_stepDeliver
  | wake c k waiting outcomes next =>
      cases waiting with
      | nil =>
          obtain rfl := Option.some.inj h
          exact .wakeDone
      | cons thread waiting =>
          obtain ⟨hidles, hstack, hreached⟩ := Machine.claim_inv h
          obtain ⟨w', focus, stack'⟩ := m'
          obtain rfl : stack' = stack := hstack
          exact .wakeNext hidles hreached

/-! ### What a transition does to the world -/

/-- A transition changes the world no more than its demand says. -/
theorem obeys {m m' : Machine K N V σ B} (h : Transition body m m') :
    m.world.Obeys m'.world m.demand := by
  have hrefl (w : World K N V σ B) (d : Demand K V) : w.Obeys w d := (World.Idles.refl w).obeys d
  cases h with
  | returnError e => exact hrefl _ _
  | returnRefused e => exact hrefl _ _
  | returnRecorded recorded => exact World.record_obeys recorded
  | unwindRoutine message => exact hrefl _ _
  | unwindPass message idles => exact idles.obeys _
  | perform r next answered => exact World.answer_obeys answered
  | build => exact hrefl _ _
  | get idles reached => exact idles.obeys _
  | race idles stored => exact idles.obeys _
  | askAnswered answered => exact (World.lookup_inv answered).1
  | askBuild b missed => exact (World.lookup_inv missed).1
  | replyRoutine => exact hrefl _ _
  | passFailed e idles => exact idles.obeys _
  | committed commit idles => exact (World.commit_obeys commit).idles idles
  | conflictSettled commit stored idles => exact (World.commit_obeys commit).idles idles
  | conflictRetried commit => exact World.commit_obeys commit
  | exhausted e idles => exact idles.obeys _
  | attempt left idles created =>
      obtain ⟨-, -, -, -, -, -, -, -, -, -, hcaches, hgrows, hshift⟩ :=
        World.createContext_inv created
      refine World.Obeys.of_quiet (idles.grows.trans hgrows) (idles.shift_trans hshift)
        (fun c k => ?_) _
      rw [← idles.stored c k, World.stored, World.stored, World.cache?, World.cache?, hcaches]
  | deliverReturned r => exact hrefl _ _
  | deliverPanicked message => exact hrefl _ _
  | deliverCrowd => exact hrefl _ _
  | wakeDone => exact hrefl _ _
  | wakeNext idles reached => exact idles.obeys _

/-- What a request within a pass is answered with has something behind it. -/
theorem reply {m m' : Machine K N V σ B} (h : Transition body m m') {x : ContextId} {k : K}
    {u : V} {asker : Asker K N V σ B} (hfocus : m'.focus = .reply x k (.ok (some u)) asker) :
    m'.world.Gives x k u := by
  cases h with
  | returnRecorded recorded =>
      obtain ⟨rfl, rfl, ⟨⟩, rfl⟩ := Focus.reply.inj hfocus
      rcases World.record_inv recorded with ⟨-, he⟩ | ⟨-, -, hshift, -⟩
      · simp at he
      · cases hshift with
        | record _ _ _ states _ => exact .recorded _ (by rw [states, if_pos ⟨rfl, rfl⟩])
  | askAnswered answered =>
      obtain ⟨rfl, rfl, rfl, rfl⟩ := Focus.reply.inj hfocus
      exact World.lookup_answered answered rfl
  | get idles reached => cases reached <;> simp at hfocus
  | wakeNext idles reached => cases reached <;> simp at hfocus
  | _ => simp at hfocus

end Transition

end DerivationCache
