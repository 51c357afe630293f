import DerivationCache.Proofs.Ensemble
import DerivationCache.Proofs.Settled

/-!
# Replayed failures

In a cache that remembers failures, the failure that a request has ended with is the failure that
every later request for the key ends with, until a value is published for the key, or the failures
of the cache are cleared. It is the same failure, and not another one with the same message: a
failure that is remembered already is not replaced, but neither can it be there when a pass fails,
since no pass is started for a key with a failure to replay, and no two passes for one key run at
the same time.

The other way round, a failure is remembered at no other step than the one at which a request for
this very key ends with it, as the key that its pass was started for.

## Main results

* `Ensemble.Sound.replays`: what requests for a key with a remembered failure come to.
* `Ensemble.Sound.remembered_of_ends`: the failure that a request ends with is remembered.
* `failures_replayed`: both over the runs of any number of machines.
-/

namespace DerivationCache

variable {K N V σ B ι : Type} [DecidableEq K] [DecidableEq N] [BEq V] [ToString K] [DecidableEq ι]

/-! ### What is replayed -/

/-- The first machine comes to the second one, and on the way no pass is started and no builder
called. -/
def Machine.Straight (body : B → ContextId → K → Body K N V σ B) (m m' : Machine K N V σ B) :
    Prop :=
  ∃ ms, Machine.Path body m ms m' ∧ ∀ o ∈ ms, o.startsPass = false ∧ o.called? = none

/-- Whoever requests the key in this world goes straight on with this failure, be it on one thread
or on several, and so do threads that have requested it before. -/
structure World.Replays (body : B → ContextId → K → Body K N V σ B) (w : World K N V σ B)
    (c : CacheId) (k : K) (f : Failure) : Prop where
  get : ∀ next stack, ∃ w', Machine.Straight body ⟨w, .run (.get c k next), stack⟩
    ⟨w', .run (next (.error (.failure f))), stack⟩
  race : ∀ n next stack, ∃ w', Machine.Straight body ⟨w, .run (.race c k n next), stack⟩
    ⟨w', .run (next (List.replicate n (.returned (.error (.failure f))))), stack⟩
  wake : ∀ waiting outcomes next stack, ∃ w',
    Machine.Straight body ⟨w, .wake c k waiting outcomes next, stack⟩ ⟨w', .run (next
      (outcomes ++ List.replicate waiting.length (.returned (.error (.failure f))))), stack⟩

namespace Ensemble

variable {s s' : Ensemble ι K N V σ B} {body : B → ContextId → K → Body K N V σ B}
  {m' : Machine K N V σ B} {c : CacheId} {k : K} {f : Failure}

omit [DecidableEq ι] in
/-- A failure that is remembered for a key without a value is replayed. -/
theorem Sound.replays (hs : s.Sound) (hf : s.world.remembered c k = some f)
    (hv : s.world.stored c k = none) : s.world.Replays body c k f := by
  obtain ⟨⟨cache, hcache, hcaches⟩, ⟨cache', hcache', howns⟩, hfree⟩ := hs.memo c k f hf
  obtain rfl := Option.some.inj (hcache.symm.trans hcache')
  rw [World.remembered_of_cache? hcache] at hf
  rw [World.stored_of_cache? hcache] at hv
  rw [World.holder, World.account_of_cache? hcache] at hfree
  have hsettled : cache.Settled k (.error (.failure f)) :=
    .failed f hv (Cache.replayable_eq_some_iff.2 ⟨hcaches, hf⟩)
  refine ⟨fun next stack => ?_, fun n next stack => ?_, fun waiting outcomes next stack => ?_⟩
  · obtain ⟨cache', hrequest, -⟩ := Cache.request_settled howns hsettled
    refine ⟨_, _, Machine.get_answers body hcache hrequest next stack, fun o ho => ?_⟩
    rcases List.mem_pair.1 ho with rfl | rfl <;> exact ⟨rfl, rfl⟩
  · let threads : List ThreadId := (List.range n).map fun i => ⟨s.world.threads + i⟩
    obtain ⟨cache', hrequest, -⟩ := Machine.requestAll_settled howns hsettled threads
    have hlength : threads.length = n := by simp [threads]
    rw [hlength] at hrequest
    let w' : World K N V σ B := { s.world.setCache c cache' with threads := s.world.threads + n }
    refine ⟨w', [_, ⟨w', .wake c k [] (List.replicate n (.returned (.error (.failure f)))) next,
      stack⟩], .step ?_ (.one rfl), fun o ho => ?_⟩
    · simp only [Machine.step, Machine.stepRun, World.onCache, hcache, Option.map_some, bind,
        Option.bind_some]
      rw [hrequest]
      rfl
    · rcases List.mem_pair.1 ho with rfl | rfl <;> exact ⟨rfl, rfl⟩
  · obtain ⟨ms, w', hpath, -, -, hms⟩ := Machine.wake_settled body
      (World.ledger_of_cache? hcache) hfree (hsettled.congr rfl) waiting outcomes next stack
    refine ⟨w', ms, hpath, fun o ho => ?_⟩
    obtain ⟨-, hbetween⟩ := hms o ho
    exact ⟨Machine.startsPass_of_passes_eq_nil hbetween.passes_eq_nil,
      (Machine.silent_of_focus hbetween.not_ask).called⟩

omit [DecidableEq ι] in
/-- The failure that a request ends with is remembered, if the cache remembers failures. -/
theorem Sound.remembered_of_ends (hs : s.Sound) (made : s.current.step body = some m')
    (hends : s.current.Ends m' c k (.returned (.error (.failure f)))) (hcaches : s.world.Caches c) :
    m'.world.remembered c k = some f := by
  rcases (Posting.of_step made).ends_failure hends with ⟨-, hreplayable, haccount⟩ | hfails
  · rw [World.remembered_of_account haccount]
    exact (World.replayable_eq_some_iff.1 hreplayable).2
  · obtain ⟨-, -, -, hremembers⟩ := Posting.of_fails hfails made
    rw [hremembers hcaches]
    -- The key is claimed, so that nothing can have been remembered for it yet.
    cases hmemo : s.current.world.remembered c k with
    | none => rfl
    | some g =>
        obtain ⟨-, -, hfree⟩ := hs.memo c k g hmemo
        obtain ⟨x, l, p, receiver, hreply, rfl, rfl⟩ := hfails
        have hheld : p.claim ∈ s.current.held := by
          refine List.mem_map_of_mem ?_
          rw [Machine.passes, hreply]
          exact List.mem_cons_self ..
        have hholder := (hs.mirrors.holder p.cache p.key p.thread).2 ⟨s.turn, hheld⟩
        simp [hfree] at hholder

/-- So it is after a step of the ensemble. -/
theorem Sound.next_remembers (hs : s.Sound) (h : Next body s s')
    (hends : s.Ends s' c k (.returned (.error (.failure f)))) (hcaches : s.world.Caches c) :
    s'.world.remembered c k = some f := by
  cases h with
  | step made turn =>
      rw [Ends, machine_advance_self] at hends
      exact hs.remembered_of_ends made hends hcaches
  | line ended idle task fresh client turn =>
      obtain ⟨⟨routine, hfocus⟩, -⟩ := fresh
      rw [Ends, machine_advance_self] at hends
      rcases hends with ⟨receiver, hdeliver⟩ | ⟨n, next, waiting, outcomes, -, hafter, -⟩
      · simp [hfocus] at hdeliver
      · simp [hfocus] at hafter

/-- A failure stays remembered until a value is published for its key, or until the failures of the
cache are cleared. -/
theorem Next.remembered_lasts (h : Next body s s') (hf : s.world.remembered c k = some f) :
    s'.world.remembered c k = some f ∨ (∃ v, s'.world.stored c k = some v) ∨
      s.current.Clears c := by
  cases h with
  | step made turn =>
      rcases (Posting.of_step made).remembered_lasts hf with hsame | ⟨-, hstored⟩ | hclears
      · exact Or.inl hsame
      · exact Or.inr (Or.inl hstored)
      · exact Or.inr (Or.inr hclears)
  | line ended idle task fresh client turn => exact Or.inl hf

/-- What is published stays published. -/
theorem Next.stored_lasts (h : Next body s s') {v : V} (hv : s.world.stored c k = some v) :
    s'.world.stored c k = some v := by
  cases h with
  | step made turn => exact (Transition.of_step made).obeys.grows.stored c k v hv
  | line ended idle task fresh client turn => exact hv

/-- A failure is remembered at the step at which a pass that was started for the key ends with
it. -/
theorem Next.remembered_source (h : Next body s s') (hf : s'.world.remembered c k = some f) :
    s.world.remembered c k = some f ∨ (s.world.remembered c k = none ∧ s.current.Fails c k f ∧
      s.Ends s' c k (.returned (.error (.failure f)))) := by
  cases h with
  | @step m' made turn =>
      rcases (Posting.of_step made).remembered_source hf with hold | ⟨hfails, -, hnone⟩
      · exact Or.inl hold
      · refine Or.inr ⟨hnone, hfails, ?_⟩
        rw [Ends, machine_advance_self]
        exact (Posting.of_fails hfails made).1
  | line ended idle task fresh client turn => exact Or.inl hf

end Ensemble

/-! ### Runs -/

section Runs

variable {body : B → ContextId → K → Body K N V σ B}
  (e : Execution (Ensemble.Starts (ι := ι)) (Ensemble.Next body))

include e in
/-- Every state of a run is sound. -/
theorem ensemble_sound {i : Nat} (hi : i ≤ e.length) : (e.state i).Sound :=
  e.invariant (I := Ensemble.Sound) (fun _ => .of_starts) (fun _ _ h hs => hs.next h) hi

/-- Over every run of any number of machines, in a cache that remembers failures: if a request for a
key has ended with a failure, then in every later state, as long as the failures of the cache are
not cleared and no value is published for the key, whoever requests the key goes straight on with
the same failure, without a pass or a call of a builder.

And every failure that is remembered in a state is remembered since a request for the key ended with
it, when a pass that was started for this key failed, in a cache that remembers failures. -/
theorem failures_replayed :
    (∀ i < e.length, ∀ c k f, (e.state i).world.Caches c →
      (e.state i).Ends (e.state (i + 1)) c k (.returned (.error (.failure f))) →
      ∀ j, i < j → j ≤ e.length → (∀ l, i < l → l < j → ¬ (e.state l).current.Clears c) →
        (e.state j).world.stored c k = none → (e.state j).world.Replays body c k f) ∧
    ∀ i ≤ e.length, ∀ c k f, (e.state i).world.remembered c k = some f →
      (e.state i).world.Caches c ∧
      ∃ j < i, (e.state j).world.remembered c k = none ∧ (e.state j).current.Fails c k f ∧
        (e.state j).Ends (e.state (j + 1)) c k (.returned (.error (.failure f))) ∧
        ∀ l, j < l → l ≤ i → (e.state l).world.remembered c k = some f := by
  constructor
  · intro i hi c k f hcaches hends j hij hj hkept hunpublished
    refine (ensemble_sound e hj).replays ?_ hunpublished
    have hlasts : (e.state j).world.remembered c k = some f ∨
        ∃ v, (e.state j).world.stored c k = some v := by
      refine e.lasts (P := fun s => s.world.remembered c k = some f ∨
        ∃ v, s.world.stored c k = some v) (Nat.succ_le_of_lt hij) (Or.inl ?_) ?_
      · exact (ensemble_sound e (Nat.le_of_lt hi)).next_remembers (e.goes i hi) hends hcaches
      · intro l hil hlj hl
        have hgoes := e.goes l (Nat.lt_of_lt_of_le hlj hj)
        rcases hl with hf | ⟨v, hv⟩
        · rcases hgoes.remembered_lasts hf with hsame | hstored | hclears
          · exact Or.inl hsame
          · exact Or.inr hstored
          · exact absurd hclears (hkept l hil hlj)
        · exact Or.inr ⟨v, hgoes.stored_lasts hv⟩
    -- The failure is forgotten for a value only, and the key has none.
    refine hlasts.resolve_right ?_
    rintro ⟨v, hv⟩
    simp [hunpublished] at hv
  · intro i hi c k f hf
    refine ⟨((ensemble_sound e hi).memo c k f hf).1, ?_⟩
    induction i with
    | zero =>
        obtain ⟨⟨client, hworld⟩, -⟩ := e.starts
        simp [hworld, World.remembered, World.cache?] at hf
    | succ i ih =>
        rcases (e.goes i hi).remembered_source hf with hold | ⟨hnone, hfails, hends⟩
        · obtain ⟨j, hj, hnone, hfails, hends, hkept⟩ := ih (Nat.le_of_succ_le hi) hold
          refine ⟨j, Nat.lt_succ_of_lt hj, hnone, hfails, hends, fun l hjl hli => ?_⟩
          rcases Nat.le_succ_iff.1 hli with hli | rfl
          · exact hkept l hjl hli
          · exact hf
        · refine ⟨i, Nat.lt_succ_self i, hnone, hfails, hends, fun l hil hli => ?_⟩
          obtain rfl : l = i + 1 := by omega
          exact hf

end Runs

/-! ### Two machines and a builder that fails anew each time -/

namespace FreshFailures

/-- No two calls of the builder fail with the same failure. -/
def failure (calls : Nat) : Failure := ⟨.counted calls, "busy"⟩

/-- The builder counts its calls, and fails. -/
def body (_ : Unit) (_ : ContextId) (_ : Nat) : Body Nat Unit Nat Nat Unit :=
  .perform .observe fun w => .perform (.setClient (w.client + 1)) fun _ =>
    .done (.error (.failure (failure (w.client + 1))))

/-- Failures are remembered. -/
def config : Config Nat Nat Nat Unit where
  makeBuilder := some fun client => ((), client)
  cachesFailures := true

/-- One machine makes the cache and requests a key, and the other one requests it later on. -/
def main : Ensemble Bool Nat Unit Nat Nat Unit where
  world := { client := 0 }
  task later := ⟨.run (if later then .get ⟨0⟩ 1 .done
    else .perform (.newCache config) fun c => .get c 1 .done), []⟩
  turn := false

/-- The other machine has its turn when the first request has ended. -/
def turns (i : Nat) : Bool := 8 ≤ i

theorem main_runs :
    ∀ i < 11, ((main.run body i turns).current.step body).isSome = true := by
  decide +kernel

/-- The run of the two requests. -/
def session : Execution (Ensemble.Starts (ι := Bool)) (Ensemble.Next body) :=
  main.runExecution turns 11 ⟨⟨0, rfl⟩, fun _ => ⟨⟨_, rfl⟩, rfl⟩⟩ main_runs

/-- The second request goes straight on with the failure of the first one, which is still
remembered at the end. -/
theorem session_replays :
    7 < session.length ∧ (session.state 7).world.Caches ⟨0⟩ ∧
      (session.state 7).Ends (session.state 8) ⟨0⟩ 1
        (.returned (.error (.failure (failure 1)))) ∧
      (session.state 9).world.stored ⟨0⟩ 1 = none ∧
      (session.state 9).world.Replays body ⟨0⟩ 1 (failure 1) ∧
      (session.state 11).world.remembered ⟨0⟩ 1 = some (failure 1) := by
  obtain ⟨hreplayed, hremembered⟩ := failures_replayed session
  have hmemo : ∀ i ≤ 11, (session.state i).world.remembered ⟨0⟩ 1 =
      if 8 ≤ i then some (failure 1) else none := by decide +kernel
  have hunpublished : (session.state 9).world.stored ⟨0⟩ 1 = none := by decide +kernel
  have hcaches : (session.state 7).world.Caches ⟨0⟩ := by
    refine (Option.any_eq_true _ _).1 ?_
    decide +kernel
  -- The failure is remembered at one step only, so this is the one at which the request ended.
  obtain ⟨-, j, hj, -, -, hends, hkept⟩ := hremembered 8 (by decide) ⟨0⟩ 1 _ (hmemo 8 (by decide))
  obtain rfl : j = 7 := by
    by_contra hne
    have hearlier := hkept 7 (by omega) (by decide)
    simp [hmemo 7 (by decide)] at hearlier
  refine ⟨by decide, hcaches, hends, hunpublished,
    hreplayed 7 (by decide) ⟨0⟩ 1 _ hcaches hends 9 (by decide) (by decide) ?_ hunpublished,
    hmemo 11 (by decide)⟩
  rintro l hl hl' ⟨next, hfocus⟩
  obtain rfl : l = 8 := by omega
  have hdelivers : ∃ r receiver, (session.state 8).current.focus =
      .deliver ⟨0⟩ 1 r receiver := ⟨_, _, rfl⟩
  obtain ⟨r, receiver, hdelivers⟩ := hdelivers
  simp [hdelivers] at hfocus

end FreshFailures

end DerivationCache
