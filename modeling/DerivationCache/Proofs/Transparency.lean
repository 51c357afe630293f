import DerivationCache.Proofs.PassBounds
import DerivationCache.Proofs.Strategy

/-!
# Memoization is transparent

Let the builders of a cache without a scope follow a plan, and let the cache be used in any sequence
of operations: requests for derived values, contexts driven by hand that are committed if they
succeed, direct insertions of values that the plan gives, and the forgetting of failures. Then it
cannot be told from the answers to the requests that anything is remembered. Each is answered with
what the plain recursion gives, whatever was published or remembered before.

What is kept between two operations is `Cache.Truthful`: published values and remembered failures
are those of the plan.

## Main results

* `Config.Planned.runs`: an operation ends, answers as the plan does, and keeps the cache truthful.
* `memoization_transparent`: so does every sequence of operations, and no placeholder is asked for.
-/

namespace DerivationCache

open Relation

variable {K N V σ B : Type} [WellFoundedRelation K]

/-! ### Truthful caches -/

section Truthful

variable [DecidableEq K] {plan : Plan K V} {cache cache' : Cache K V σ B} {k : K}

/-- What is published and remembered are values and failures of the plan. -/
structure Cache.Truthful (cache : Cache K V σ B) (plan : Plan K V) : Prop where
  stored : ∀ k v, cache.store.get? k = some v → evaluate plan k = .ok v
  remembered : ∀ k f, cache.failures.get? k = some f → evaluate plan k = .error f.message

omit [WellFoundedRelation K] in
/-- Nothing is being derived. -/
def Cache.Idle (cache : Cache K V σ B) : Prop := ∀ k, cache.inFlight.get? k = none

namespace Cache

omit [WellFoundedRelation K] in
/-- Giving back the only claim leaves the cache without claims. -/
theorem Idle.release (h : cache.Idle) (k : K) (thread : ThreadId)
    (hclaims : cache'.inFlight = cache.inFlight.insert k thread) : (cache'.release k).Idle := by
  intro l
  have hl := h l
  by_cases hkl : k = l <;> simp [Cache.release, hclaims, hkl, hl]

namespace Truthful

/-- A fresh cache has published and remembered nothing that could be false. -/
theorem ofConfig (config : Config K V σ B) (plan : Plan K V) :
    (Cache.ofConfig config).Truthful plan where
  stored k v h := by simp [Cache.ofConfig] at h
  remembered k f h := by simp [Cache.ofConfig] at h

/-- A context all of whose recorded values are those of the plan may be published. -/
theorem gains {x : Context K V σ B} (h : cache.Truthful plan) (hgains : cache.Gains x cache')
    (hx : ∀ k v, x.get? k = some v → evaluate plan k = .ok v) : cache'.Truthful plan := by
  refine ⟨fun k v hv => ?_, fun k f hf => ?_⟩
  · rw [hgains.store] at hv
    rcases Option.or_eq_some_iff.1 hv with hv | ⟨-, hv⟩
    · exact h.stored k v hv
    · exact hx k v hv
  · rw [hgains.failures] at hf
    split at hf
    · simp at hf
    · exact h.remembered k f hf

/-- A failure of the plan may be remembered. -/
theorem remember {f : Failure} (h : cache.Truthful plan)
    (hf : evaluate plan k = .error f.message) :
    (cache.remember k (.failure f)).Truthful plan := by
  rw [Cache.remember]
  split
  · refine ⟨h.stored, fun l g hg => ?_⟩
    by_cases hkl : k = l
    · subst hkl
      obtain rfl : f = g := by simpa using hg
      exact hf
    · exact h.remembered l g (by simpa [hkl] using hg)
  · exact h

/-- Forgetting the failures loses nothing that is true. -/
theorem clearFailures (h : cache.Truthful plan) : cache.clearFailures.Truthful plan :=
  ⟨h.stored, fun k f hf => by simp [Cache.clearFailures] at hf⟩

/-- A value of the plan may be inserted. -/
theorem insert [BEq V] [ToString K] {v : V} (h : cache.Truthful plan)
    (hv : evaluate plan k = .ok v) : (cache.insert k v).2.Truthful plan := by
  rw [Cache.insert]
  split
  · exact h
  · split
    · exact h
    · refine ⟨fun l u hu => ?_, fun l f hf => ?_⟩
      · by_cases hkl : k = l
        · subst hkl
          obtain rfl : v = u := by simpa using hu
          exact hv
        · exact h.stored l u (by simpa [hkl] using hu)
      · by_cases hkl : k = l
        · simp [hkl] at hf
        · exact h.remembered l f (by simpa [hkl] using hf)

end Truthful

end Cache

end Truthful

/-! ### Operations -/

/-- What is done with the cache, one after the other. -/
inductive Operation (plan : Plan K V) : Type where
  /-- A request for a derived value. -/
  | get (k : K)
  /-- A request in a fresh context, which is committed if it succeeds. -/
  | byHand (k : K)
  | clearFailures
  /-- The direct insertion of a value that the plan gives. -/
  | insert (k : K) (v : V) (evaluates : evaluate plan k = .ok v)

namespace Operation

variable {plan : Plan K V}

/-- Commits the context if the request in it has succeeded. -/
def commitAnswer (x : ContextId) (next : Option (Except RequestError V) → Body K N V σ B) :
    Except RequestError (Option V) → Body K N V σ B
  | .ok (some v) => .perform (.commit x) fun _ => next (some (.ok v))
  | .ok none => next none
  | .error e => next (some (.error e))

/-- The routine that does the operation and goes on with the answer, if there is one. -/
def routine (c : CacheId) (next : Option (Except RequestError V) → Body K N V σ B) :
    Operation plan → Body K N V σ B
  | get k => .get c k fun answer => next (some answer)
  | byHand k =>
    .perform (.createContext c none none) fun (x : ContextId) => .build x k (commitAnswer x next)
  | clearFailures => .perform (.clearFailures c) fun _ => next none
  | insert k v _ => .perform (.insert c k v) fun _ => next none

/-- The routine that does the operations one after the other and goes on with all the answers. -/
def routines (c : CacheId) : List (Operation plan) →
    (List (Option (Except RequestError V)) → Body K N V σ B) → Body K N V σ B
  | [], finish => finish []
  | op :: ops, finish =>
    op.routine c fun answer => routines c ops fun answers => finish (answer :: answers)

/-- A request is answered with the value that the plan gives, or with a failure that has its
message. -/
def Evaluates (plan : Plan K V) (k : K) (answer : Except RequestError V) : Prop :=
  match evaluate plan k with
  | .ok v => answer = .ok v
  | .error message => ∃ f, answer = .error (.failure f) ∧ f.message = message

/-- The answer is that of the plan, if a key is requested. -/
def Answered : Operation plan → Option (Except RequestError V) → Prop
  | get k, answer => ∃ r, answer = some r ∧ Evaluates plan k r
  | byHand k, answer => ∃ r, answer = some r ∧ Evaluates plan k r
  | clearFailures, answer => answer = none
  | insert _ _ _, answer => answer = none

/-- A value that the plan gives is what the key evaluates to. -/
theorem evaluates_ok {k : K} {v : V} (h : evaluate plan k = .ok v) : Evaluates plan k (.ok v) := by
  rw [Evaluates, h]

/-- A failure in the plan is met under whatever kind carries its message. -/
theorem evaluates_failure {k : K} {f : Failure} (h : evaluate plan k = .error f.message) :
    Evaluates plan k (.error (.failure f)) := by
  rw [Evaluates, h]
  exact ⟨f, rfl, rfl⟩

end Operation

/-! ### Operations on a truthful cache -/

section Runs

variable [DecidableEq K]

/-- The cache has this configuration, is truthful, and derives nothing at the moment. -/
def World.Serves (w : World K N V σ B) (c : CacheId) (config : Config K V σ B)
    (plan : Plan K V) : Prop :=
  ∃ cache, w.ledger c = some cache ∧ cache.config = config ∧ cache.Truthful plan ∧ cache.Idle

/-- A cache of this configuration has no scope and derives its values with builders that follow the
plan. -/
structure Config.Planned (config : Config K V σ B) (plan : Plan K V)
    (body : B → ContextId → K → Body K N V σ B) : Prop where
  unscoped : config.scope = none
  derives : config.makeBuilder.isSome = true
  follows : ∀ b x k, Routine.Follows x (plan k) (body b x k)

variable [DecidableEq N] [BEq V] [ToString K] {body : B → ContextId → K → Body K N V σ B}
  {plan : Plan K V} {config : Config K V σ B} {w : World K N V σ B} {c : CacheId}
  {cache : Cache K V σ B} {stack : List (Frame K N V σ B)} {k : K}

namespace Config.Planned

omit [DecidableEq N] [BEq V] [ToString K] in
/-- A pass for a truthful cache of such a configuration follows the plan. -/
theorem pass (h : config.Planned plan body) (s : PassSetting K V σ B)
    (hconfig : s.cache.config = config) (hcache : s.cache.Truthful plan) :
    s.Planned plan body where
  follows b k := h.follows b s.context k
  unscoped := by rw [hconfig, h.unscoped]
  stored := hcache.stored

omit [DecidableEq K] [DecidableEq N] [BEq V] [ToString K] in
/-- Every key belongs to the cache, since there is no scope. -/
theorem owns (h : config.Planned plan body) (cache : Cache K V σ B)
    (hconfig : cache.config = config) (k : K) : cache.owns k = true := by
  rw [Cache.owns, hconfig, h.unscoped]

/-- A request that opens a pass is answered as the plan says. -/
theorem get_derives (h : config.Planned plan body) (hcache : w.cache? c = some cache)
    (hconfig : cache.config = config) (htrue : cache.Truthful plan) (hidle : cache.Idle)
    (hk : cache.Underived k) (next : Except RequestError V → Body K N V σ B) :
    ∃ ms r w', Machine.Path body ⟨w, .run (.get c k next), stack⟩ ms ⟨w', .run (next r), stack⟩ ∧
      Operation.Evaluates plan k r ∧ w'.Serves c config plan ∧ Machine.issues ms = [] := by
  obtain ⟨s, w₁, w₂, thread, left, hopens, hpass, hs⟩ := Machine.get_opens body hcache hk next stack
  have hconfig' : s.cache.config = config := by
    rw [hs.claimed, ← hconfig]
    rfl
  have htrue' : s.cache.Truthful plan := by
    rw [hs.claimed]
    exact ⟨htrue.stored, htrue.remembered⟩
  have hclaims : s.cache.inFlight = cache.inFlight.insert k thread := by
    rw [hs.claimed]
    rfl
  obtain ⟨ms₂, w₃, answer, hanswer, hsettles, hms₂⟩ :=
    Recorded.ask_evaluates (h.pass s hconfig' htrue') k w₂ .empty stack
      (.pass ⟨c, k, thread, left⟩ (.caller next)) (.start plan hpass)
      fun j hj => absurd hj (s.not_inFlight_empty j)
  cases hsettles with
  | @value entries v evaluates recorded inFlight =>
      -- The answer leaves in flight what was so before it, which is nothing.
      have hsettled : ∀ j, ¬ (s.contextWith entries).InFlight j :=
        fun j hj => s.not_inFlight_empty j ((inFlight j).1 hj)
      obtain ⟨w', cache', hend, hgains, hledger⟩ := recorded.inPass.reply_publishes body (k := k)
        (p := ⟨c, k, thread, left⟩) hs.parent.symm hsettled recorded.fresh v next stack
      have hgained := htrue'.gains hgains recorded.context_values
      have hserves : w'.Serves c config plan := by
        refine ⟨cache'.release k, ?_, hgains.config.trans hconfig',
          ⟨hgained.stored, hgained.remembered⟩,
          hidle.release k thread (hgains.inFlight.trans hclaims)⟩
        rw [hledger, hs.parent, Function.update_self]
      exact ⟨_, .ok v, w', hopens.trans (hanswer.trans hend), Operation.evaluates_ok evaluates,
        hserves, by simp [hms₂]⟩
  | @failure entries f evaluates inPass =>
      obtain ⟨w', hend, hledger⟩ := inPass.reply_fails body (k := k)
        (p := ⟨c, k, thread, left⟩) hs.parent.symm (.failure f) next stack
      have hremembered := htrue'.remember evaluates
      have hserves : w'.Serves c config plan := by
        refine ⟨(s.cache.remember k (.failure f)).release k, ?_,
          (Cache.remember_config _ _ _).trans hconfig',
          ⟨hremembered.stored, hremembered.remembered⟩,
          hidle.release k thread ((Cache.remember_inFlight _ _ _).trans hclaims)⟩
        rw [hledger, hs.parent, Function.update_self]
      exact ⟨_, .error (.failure f), w', hopens.trans (hanswer.trans hend),
        Operation.evaluates_failure evaluates, hserves, by simp [hms₂]⟩

/-- A request is answered as the plan says. -/
theorem runs_get (h : config.Planned plan body) (hw : w.Serves c config plan) (k : K)
    (next : Except RequestError V → Body K N V σ B) (stack : List (Frame K N V σ B)) :
    ∃ ms r w', Machine.Path body ⟨w, .run (.get c k next), stack⟩ ms ⟨w', .run (next r), stack⟩ ∧
      Operation.Evaluates plan k r ∧ w'.Serves c config plan ∧ Machine.issues ms = [] := by
  obtain ⟨_, hledger, hconfig, htrue, hidle⟩ := hw
  obtain ⟨cache, hcache, rfl⟩ := World.cache_of_ledger hledger
  have htrue' : cache.Truthful plan := ⟨htrue.stored, htrue.remembered⟩
  have howns : cache.owns k = true := h.owns cache hconfig k
  have hanswered {r : Except RequestError V} {cache' : Cache K V σ B}
      (hrequest : cache.request k = (some r, cache'))
      (hsame : cache'.resetCounters = cache.resetCounters)
      (hr : Operation.Evaluates plan k r) :
      ∃ ms r w', Machine.Path body ⟨w, .run (.get c k next), stack⟩ ms
          ⟨w', .run (next r), stack⟩ ∧
        Operation.Evaluates plan k r ∧ w'.Serves c config plan ∧ Machine.issues ms = [] := by
    have hpath := Machine.get_answers body hcache hrequest next stack
    have hserves : (w.setCache c cache').Serves c config plan := by
      refine ⟨cache.resetCounters, ?_, hconfig, htrue, hidle⟩
      rw [World.ledger_setCache_of_eq hcache hsame, hledger]
    exact ⟨_, r, _, hpath, hr, hserves, by simp⟩
  cases hstore : cache.store.get? k with
  | some v =>
      obtain ⟨cache', hrequest, hsame⟩ := Cache.request_published howns hstore
      exact hanswered hrequest hsame (Operation.evaluates_ok (htrue'.stored k v hstore))
  | none =>
      by_cases hreplays : cache.config.cachesFailures = true ∧ ∃ f, cache.failures.get? k = some f
      · obtain ⟨hcaches, f, hf⟩ := hreplays
        obtain ⟨cache', hrequest, hsame⟩ := Cache.request_remembered howns hstore hcaches hf
        exact hanswered hrequest hsame (Operation.evaluates_failure (htrue'.remembered k f hf))
      · have hunmemoized (hcaches : cache.config.cachesFailures = true) :
            cache.failures.get? k = none := by
          rw [Option.eq_none_iff_forall_ne_some]
          exact fun f hf => hreplays ⟨hcaches, f, hf⟩
        have hderives : cache.config.makeBuilder.isSome = true := by
          have hconfig' : cache.config = config := hconfig
          rw [hconfig', h.derives]
        exact h.get_derives hcache hconfig htrue' hidle
          ⟨howns, hstore, hunmemoized, hidle k, hderives⟩ next

/-- So is a request in a fresh context, which is then committed. -/
theorem runs_byHand (h : config.Planned plan body) (hw : w.Serves c config plan) (k : K)
    (next : Option (Except RequestError V) → Body K N V σ B) (stack : List (Frame K N V σ B)) :
    ∃ ms r w', Machine.Path body
        ⟨w, .run ((Operation.byHand k : Operation plan).routine c next), stack⟩ ms
        ⟨w', .run (next (some r)), stack⟩ ∧
      Operation.Evaluates plan k r ∧ w'.Serves c config plan ∧ Machine.issues ms = [] := by
  obtain ⟨cache, hledger, hconfig, htrue, hidle⟩ := hw
  obtain ⟨make, hmake⟩ := Option.isSome_iff_exists.1 h.derives
  rw [← hconfig] at hmake
  obtain ⟨s, w₁, hcreate, hopened, rfl, hpass⟩ := World.answer_createContext hledger hmake
  obtain ⟨ms₂, w₂, answer, hanswer, hsettles, hms₂⟩ :=
    Recorded.ask_evaluates (h.pass s hconfig htrue) k w₁ .empty stack
      (.routine (Operation.commitAnswer s.context next)) (.start plan hpass)
      fun j hj => absurd hj (s.not_inFlight_empty j)
  -- the context is made, the key is requested in it, and the answer is handed to the routine
  have hmakes : (⟨w, .run ((Operation.byHand k : Operation plan).routine c next), stack⟩ :
      Machine K N V σ B).step body =
        some ⟨w₁, .run (.build s.context k (Operation.commitAnswer s.context next)), stack⟩ := by
    simp [Operation.routine, Machine.step, Machine.stepRun, hcreate, Machine.move]
  have hpath := Machine.Path.step hmakes
    ((Machine.Path.step (Machine.step_build body ..) hanswer).trans
      (.one (Machine.step_reply_routine body ..)))
  cases hsettles with
  | @value entries v evaluates recorded inFlight =>
      have hsettled : ∀ j, ¬ (s.contextWith entries).InFlight j :=
        fun j hj => s.not_inFlight_empty j ((inFlight j).1 hj)
      obtain ⟨w', cache', hcommit, hgains, hledger'⟩ :=
        recorded.inPass.commit_settled hsettled recorded.fresh
      have hcommits : (⟨w₂, .run (Operation.commitAnswer s.context next (.ok (some v))), stack⟩ :
          Machine K N V σ B).step body = some ⟨w', .run (next (some (.ok v))), stack⟩ := by
        simp [Operation.commitAnswer, Machine.step, Machine.stepRun, World.answer, hcommit,
          Machine.move]
      have hserves : w'.Serves c config plan := by
        refine ⟨cache', ?_, hgains.config.trans hconfig,
          htrue.gains hgains recorded.context_values, ?_⟩
        · rw [hledger', hopened.parent, Function.update_self]
        · intro l
          rw [hgains.inFlight, hidle l]
      exact ⟨_, .ok v, w', hpath.trans (.one hcommits), Operation.evaluates_ok evaluates, hserves,
        by simp [hms₂]⟩
  | @failure entries f evaluates inPass =>
      have hserves : w₂.Serves c config plan := by
        refine ⟨s.cache, ?_, hconfig, htrue, hidle⟩
        rw [inPass.ledger, hopened.ledger, hledger]
      exact ⟨_, .error (.failure f), w₂, hpath, Operation.evaluates_failure evaluates, hserves,
        by simp [hms₂]⟩

/-- An operation ends, its answer is that of the plan, and the cache stays truthful. -/
theorem runs (h : config.Planned plan body) (hw : w.Serves c config plan) (op : Operation plan)
    (next : Option (Except RequestError V) → Body K N V σ B) (stack : List (Frame K N V σ B)) :
    ∃ ms answer w', Machine.Path body ⟨w, .run (op.routine c next), stack⟩ ms
        ⟨w', .run (next answer), stack⟩ ∧
      op.Answered answer ∧ w'.Serves c config plan ∧ Machine.issues ms = [] := by
  cases op with
  | get k =>
      obtain ⟨ms, r, w', hpath, hr, hserves, hms⟩ :=
        h.runs_get hw k (fun answer => next (some answer)) stack
      exact ⟨ms, some r, w', hpath, ⟨r, rfl, hr⟩, hserves, hms⟩
  | byHand k =>
      obtain ⟨ms, r, w', hpath, hr, hserves, hms⟩ := h.runs_byHand hw k next stack
      exact ⟨ms, some r, w', hpath, ⟨r, rfl, hr⟩, hserves, hms⟩
  | clearFailures =>
      obtain ⟨_, hledger, hconfig, htrue, hidle⟩ := hw
      obtain ⟨cache, hcache, rfl⟩ := World.cache_of_ledger hledger
      have hstep : (⟨w, .run ((Operation.clearFailures : Operation plan).routine c next), stack⟩ :
          Machine K N V σ B).step body =
            some ⟨w.setCache c cache.clearFailures, .run (next none), stack⟩ := by
        simp [Operation.routine, Machine.step, Machine.stepRun, World.answer, World.onCache, hcache,
          Machine.move]
      have hserves : (w.setCache c cache.clearFailures).Serves c config plan := by
        refine ⟨cache.clearFailures.resetCounters, ?_, hconfig, htrue.clearFailures, hidle⟩
        rw [World.ledger_setCache hcache, Function.update_self]
      exact ⟨_, none, _, .one hstep, rfl, hserves, by simp⟩
  | insert k v evaluates =>
      obtain ⟨_, hledger, hconfig, htrue, hidle⟩ := hw
      obtain ⟨cache, hcache, rfl⟩ := World.cache_of_ledger hledger
      have hstep : (⟨w, .run ((Operation.insert k v evaluates).routine c next), stack⟩ :
          Machine K N V σ B).step body =
            some ⟨w.setCache c (cache.insert k v).2, .run (next none), stack⟩ := by
        simp [Operation.routine, Machine.step, Machine.stepRun, World.answer, World.onCache, hcache,
          Machine.move]
      have htrue' : cache.Truthful plan := ⟨htrue.stored, htrue.remembered⟩
      have hinserted := htrue'.insert evaluates
      have hserves : (w.setCache c (cache.insert k v).2).Serves c config plan := by
        refine ⟨(cache.insert k v).2.resetCounters, ?_, (cache.insert_config k v).trans hconfig,
          ⟨hinserted.stored, hinserted.remembered⟩, fun l => ?_⟩
        · rw [World.ledger_setCache hcache, Function.update_self]
        · exact (congrArg (fun t => t.get? l) (cache.insert_inFlight k v)).trans (hidle l)
      exact ⟨_, none, _, .one hstep, rfl, hserves, by simp⟩

/-- Operations that are done one after the other all end and answer so. -/
theorem runs_all (h : config.Planned plan body) (ops : List (Operation plan))
    (hw : w.Serves c config plan)
    (finish : List (Option (Except RequestError V)) → Body K N V σ B) :
    ∃ ms answers w', Machine.Path body ⟨w, .run (Operation.routines c ops finish), stack⟩ ms
        ⟨w', .run (finish answers), stack⟩ ∧
      List.Forall₂ Operation.Answered ops answers ∧ w'.Serves c config plan ∧
      Machine.issues ms = [] := by
  induction ops generalizing w finish with
  | nil => exact ⟨[], [], w, .here, .nil, hw, rfl⟩
  | cons op ops ih =>
      obtain ⟨ms₁, answer, w₁, hpath₁, hanswer, hserves₁, hms₁⟩ := h.runs hw op
        (fun answer => Operation.routines c ops fun answers => finish (answer :: answers)) stack
      obtain ⟨ms₂, answers, w', hpath₂, hanswers, hserves₂, hms₂⟩ :=
        ih hserves₁ fun answers => finish (answer :: answers)
      exact ⟨_, answer :: answers, w', hpath₁.trans hpath₂, .cons hanswer hanswers, hserves₂,
        by simp [hms₁, hms₂]⟩

end Config.Planned

end Runs

/-- Let a cache without a scope start with nothing in it, and let its builders follow a plan. Then
every sequence of requests, hand-driven contexts that are committed if they succeed, insertions of
values that the plan gives and forgettings of failures ends. Every request is answered with the
value that the plan gives, or with a failure that has its message; at every moment all published
values are those of the plan; and no placeholder is ever asked for. This holds whether or not
failures are remembered, and whether or not there is a way to make placeholders. -/
theorem memoization_transparent [DecidableEq K] [DecidableEq N] [BEq V] [ToString K]
    {body : B → ContextId → K → Body K N V σ B} {plan : Plan K V} {config : Config K V σ B}
    {w : World K N V σ B} {c : CacheId} (hcache : w.cache? c = some (.ofConfig config))
    (hscope : config.scope = none) (hbuilder : config.makeBuilder.isSome = true)
    (hbody : ∀ b x k, Routine.Follows x (plan k) (body b x k)) (ops : List (Operation plan))
    (finish : List (Option (Except RequestError V)) → Body K N V σ B) :
    ∃ ms answers w', Machine.Path body (.start w (Operation.routines c ops finish)) ms
        (.start w' (finish answers)) ∧
      List.Forall₂ Operation.Answered ops answers ∧
      (∀ m ∈ ms, ∀ k v, m.world.stored c k = some v → evaluate plan k = .ok v) ∧
      (∀ k v, w'.stored c k = some v → evaluate plan k = .ok v) ∧
      Machine.issues ms = [] := by
  have hplanned : config.Planned plan body := ⟨hscope, hbuilder, hbody⟩
  have hserves : w.Serves c config plan :=
    ⟨.ofConfig config, World.ledger_of_cache? hcache, rfl, .ofConfig config plan, fun k => rfl⟩
  obtain ⟨ms, answers, w', hpath, hanswers, ⟨cache, hledger, -, htrue, -⟩, hms⟩ :=
    hplanned.runs_all ops hserves finish
  have hlast (k : K) (v : V) (hv : w'.stored c k = some v) : evaluate plan k = .ok v := by
    rw [World.stored_eq_ledger, hledger] at hv
    exact htrue.stored k v hv
  exact ⟨ms, answers, w', hpath, hanswers,
    fun m hm k v hv => hlast k v ((hpath.grows.2 m hm).stored c k v hv), hlast, hms⟩

/-! ### A plan with a failure -/

namespace SumsOfTwo

/-- Each number is the sum of the two before it, and there is none for `3`. -/
def plan : Plan Nat Nat
  | 0 => .value 0
  | 1 => .value 1
  | 3 => .failure "three"
  | n + 2 => .request (n + 1) (Nat.lt_succ_self _) fun a =>
      .request n (Nat.lt_add_of_pos_right Nat.two_pos) fun b => .value (a + b)

theorem evaluate_one : evaluate plan 1 = .ok 1 := by
  rw [evaluate]
  rfl

theorem evaluate_two : evaluate plan 2 = .ok 1 := by
  have hzero : evaluate plan 0 = .ok 0 := by
    rw [evaluate]
    rfl
  rw [evaluate]
  simp [plan, Strategy.eval, evaluate_one, hzero]

theorem evaluate_four : evaluate plan 4 = .error "three" := by
  have hthree : evaluate plan 3 = .error "three" := by
    rw [evaluate]
    rfl
  rw [evaluate]
  simp [plan, Strategy.eval, hthree]

/-- Every builder follows the plan. -/
def body : Unit → ContextId → Nat → Body Nat Unit Nat Unit Unit :=
  fun _ x k => (plan k).routine x

/-- Failures are remembered, and there is a way to make placeholders. -/
def config : Config Nat Nat Unit Unit :=
  { makeBuilder := some fun client => ((), client)
    placeholders := some fun k _ client => ((.sentinel, k), client)
    cachesFailures := true }

/-- One cache, and nothing has happened yet. -/
def world : World Nat Unit Nat Unit Unit :=
  { caches := #[.ofConfig config], client := () }

/-- Two requests with everything else in between. -/
def operations : List (Operation plan) :=
  [.get 4, .insert 1 1 evaluate_one, .byHand 2, .clearFailures, .get 2]

/-- The answer to the last request is the result. -/
def finish (answers : List (Option (Except RequestError Nat))) : Body Nat Unit Nat Unit Unit :=
  match answers.getLast? with
  | some (some r) => .done r
  | _ => .halt

/-- The first request fails, the last one gives the value, and no placeholder is asked for. -/
theorem operations_transparent :
    world.cache? ⟨0⟩ = some (.ofConfig config) ∧
      ∃ ms f a b d w', Machine.Path body
          (.start world (Operation.routines ⟨0⟩ operations finish)) ms
          (.start w' (finish [some (.error (.failure f)), a, b, d, some (.ok 1)])) ∧
        f.message = "three" ∧ Machine.issues ms = [] := by
  have hcache : world.cache? ⟨0⟩ = some (.ofConfig config) := rfl
  obtain ⟨ms, answers, w', hpath, hanswers, -, -, hissues⟩ :=
    memoization_transparent hcache rfl rfl
      (fun _ x k => Strategy.follows_routine x (plan k)) operations finish
  obtain _ | ⟨hfirst, _ | ⟨-, _ | ⟨-, _ | ⟨-, _ | ⟨hlast, _ | _⟩⟩⟩⟩⟩ := hanswers
  obtain ⟨r, rfl, hr⟩ := hfirst
  obtain ⟨r', rfl, hr'⟩ := hlast
  rw [Operation.Evaluates, evaluate_four] at hr
  rw [Operation.Evaluates, evaluate_two] at hr'
  obtain ⟨f, rfl, hf⟩ := hr
  subst hr'
  exact ⟨hcache, ms, f, _, _, _, w', hpath, hf, hissues⟩

end SumsOfTwo

end DerivationCache
