import DerivationCache.Proofs.Replay
import DerivationCache.Proofs.Tallies

/-!
# The balance of requests

Every request that is admitted counts a call, and with it a hit, a replayed failure or a miss. So
these three together are as many as the calls, wherever a run stands, and whether or not the
counters have been set back within a builder. The one thing that is counted without a call is the
failure that a thread is answered with which has missed its key before (`Machine.shares`).

A request is answered, or misses, in a single step. The states of a run are therefore those between
the instructions of builders and routines, in which no request has counted its call and not yet what
it came to. Threads that request one key at the same time count their calls and misses in one step
as well, before any of them waits. Nothing is said of the moments within such a step.

It takes two requests for one key at the same time for this. In a run in which nobody requests a key
while somebody else derives it or waits for it (`Ensemble.Crowded`), no machine has more than one
thread waiting, and the key that this thread waits for has no failure that could be replayed
(`Ensemble.Solitary`).

## Main results

* `Machine.incidents_balanced`: what a step counts for requests.
* `Ensemble.Solitary.next`: without a crowd, no thread waits for a key that fails meanwhile.
* `requests_balance`: the balance in every state of a run, between the instructions of its
  machines.
-/

namespace DerivationCache

variable {K N V σ B ι : Type}

/-! ### One step -/

/-- Among these incidents there is a hit, a miss or a replayed failure for every call, and one
replayed failure for every answer that is shared. -/
structure Balanced (incidents : List (CacheId × Metrics.Event)) (c : CacheId) (shared : Nat) :
    Prop where
  answered : incidents.count (c, .getHit) + incidents.count (c, .getMiss) +
    incidents.count (c, .failureReplay) = incidents.count (c, .getCall) + shared
  called : incidents.count (c, .getHit) + incidents.count (c, .getMiss) ≤
    incidents.count (c, .getCall)

namespace Balanced

variable {incidents rest : List (CacheId × Metrics.Event)} {c d : CacheId} {shared shared' : Nat}

theorem nil : Balanced [] c 0 := ⟨rfl, Nat.le_refl _⟩

/-- The incidents of two balanced lists. -/
theorem append (h : Balanced incidents c shared) (h' : Balanced rest c shared') :
    Balanced (incidents ++ rest) c (shared + shared') where
  answered := by
    have hfirst := h.answered
    have hrest := h'.answered
    simp only [List.count_append]
    omega
  called := by
    have hfirst := h.called
    have hrest := h'.called
    simp only [List.count_append]
    omega

/-- Incidents that have nothing to do with requests. -/
theorem of_other (h : ∀ i ∈ incidents, ¬ i.2.OfRequests) : Balanced incidents c 0 := by
  have hnone (e : Metrics.Event) (he : e.OfRequests) : incidents.count (c, e) = 0 :=
    List.count_eq_zero.2 fun hi => h _ hi he
  constructor <;> simp [hnone .getHit trivial, hnone .getMiss trivial, hnone .getCall trivial,
    hnone .failureReplay trivial]

/-- The incidents of one balanced list, over and over. -/
theorem replicate (h : Balanced incidents c 0) (n : Nat) :
    Balanced (List.replicate n incidents).flatten c 0 := by
  induction n with
  | zero => exact nil
  | succ n ih => exact h.append ih

end Balanced

section Steps

variable [DecidableEq K] {c : CacheId}

/-- A request counts one call, and one thing that it finds. -/
theorem World.requested_balanced (w : World K N V σ B) (d : CacheId) (k : K) :
    Balanced (w.requested d k) c 0 := by
  rw [requested]
  cases w.cache? d with
  | none => exact .nil
  | some cache =>
      rw [Option.elim_some, Cache.requested]
      cases cache.owns k with
      | false => exact .nil
      | true =>
          have hfinds : cache.finds k = .getHit ∨ cache.finds k = .getMiss ∨
              cache.finds k = .failureReplay := by
            rw [Cache.finds]
            split
            · exact Or.inl rfl
            · split
              · exact Or.inr (Or.inr rfl)
              · exact Or.inr (Or.inl rfl)
          by_cases hdc : d = c
          · rcases hfinds with hfinds | hfinds | hfinds <;> constructor <;> simp [hfinds, hdc]
          · constructor <;> simp [hdc]

namespace Machine

variable [DecidableEq N] [BEq V] [ToString K] (body : B → ContextId → K → Body K N V σ B)

/-- What a step counts for requests is balanced, but for an answer that is shared. -/
theorem incidents_balanced (m : Machine K N V σ B) (c : CacheId) :
    Balanced (m.incidents body) c (m.shares body c).toNat := by
  obtain ⟨w, focus, stack⟩ := m
  cases focus with
  | run b =>
      cases b with
      | get d k next => exact w.requested_balanced d k
      | race d k n next => exact (w.requested_balanced d k).replicate n
      | perform r next => exact .of_other (incidents_other (Or.inr (Or.inr ⟨r, next, rfl⟩)))
      | _ => exact .nil
  | ask x k asker => exact .of_other (incidents_other (Or.inl ⟨x, k, asker, rfl⟩))
  | reply x k answer asker =>
      exact .of_other (incidents_other (Or.inr (Or.inl ⟨x, k, answer, asker, rfl⟩)))
  | attempt p receiver =>
      by_cases hleft : p.left = 0 <;> constructor <;> simp [incidents, shares, hleft]
  | deliver d k r receiver => exact .nil
  | wake d k waiting outcomes next =>
      cases waiting with
      | nil => exact .nil
      | cons thread waiting =>
          by_cases hdc : d = c
          · subst hdc
            rcases hs : (⟨w, .wake d k (thread :: waiting) outcomes next, stack⟩ :
              Machine K N V σ B).shares body d <;> constructor <;> simp [incidents, hs]
          · constructor <;> simp [incidents, shares, hdc, apply_ite (List.count _)]

end Machine

end Steps

/-! ### Nobody else wants the key -/

/-- How many threads request one key at once in the next step. -/
def Machine.racers (m : Machine K N V σ B) : Nat :=
  match m.focus with
  | .run (.race _ _ n _) => n
  | _ => 0

namespace Ensemble

/-- Several requests are made for one key at the same time: by the threads of one routine, or by
two machines that derive it or have threads waiting for it. -/
inductive Crowded (s : Ensemble ι K N V σ B) : Prop
  | race (several : 2 ≤ s.current.racers)
  | seek (i j : ι) (c : CacheId) (k : K) (ne : i ≠ j) (first : (s.machine i).Seeks c k)
      (second : (s.machine j).Seeks c k)

end Ensemble

/-- No thread of the machine waits, but for one which has just missed a key whose failure is not
remembered. -/
def Machine.Solitary [DecidableEq K] (m : Machine K N V σ B) : Prop :=
  m.waiting = [] ∨ ∃ c k thread outcomes next, m.focus = .wake c k [thread] outcomes next ∧
    m.waiting = [thread] ∧ m.world.replayable c k = none

section Solitude

variable [DecidableEq K] [DecidableEq N] [BEq V] [ToString K]
  {body : B → ContextId → K → Body K N V σ B} {m m' : Machine K N V σ B}

namespace Machine.Solitary

omit [DecidableEq N] [BEq V] in
/-- The only thread that waits finds no failure when it reaches for its key, and nobody waits any
more. -/
theorem claim {c : CacheId} {k : K} {thread : ThreadId} {outcomes : List (Outcome V)}
    {next : List (Outcome V) → Body K N V σ B} (hfocus : m.focus = .wake c k [thread] outcomes next)
    (hwaiting : m.waiting = [thread]) (hreplayable : m.world.replayable c k = none)
    (h : m.claim c k thread (.crowd [] outcomes next) = some m') :
    m'.waiting = [] ∧ m'.focus.isFailure = false := by
  obtain ⟨hstack, hposts⟩ := claim_posts h
  have hrest : m.stack.flatMap (fun frame => frame.asker.waiting) = [] := by
    rw [waiting, hfocus] at hwaiting
    simpa [Focus.waiting] using hwaiting
  rw [waiting, hstack, hrest, List.append_nil]
  obtain ⟨r, hfocus', hanswers, -⟩ | ⟨hfocus', -⟩ := hposts
  · rw [hfocus']
    cases hanswers with
    | published v stored => exact ⟨rfl, rfl⟩
    | refused e => exact ⟨rfl, rfl⟩
    | replayed f unpublished replayable => simp [hreplayable] at replayable
  · rw [hfocus']
    exact ⟨rfl, rfl⟩

/-- A solitary machine shares no answer. -/
theorem not_shares (hm : m.Solitary) (c : CacheId) : m.shares body c = false := by
  obtain ⟨w, focus, stack⟩ := m
  cases focus with
  | wake d k threads outcomes next =>
      cases threads with
      | nil => rfl
      | cons thread threads =>
          obtain hnone | ⟨d', k', t, outcomes', next', hfocus, hwaiting, hreplayable⟩ := hm
          · simp [waiting, Focus.waiting] at hnone
          · have h := hfocus
            obtain ⟨rfl, rfl, hthreads, rfl, rfl⟩ := Focus.wake.inj hfocus
            obtain ⟨rfl, rfl⟩ := List.cons.inj hthreads
            rw [shares]
            cases hstep : (⟨w, .wake d k [thread] outcomes next, stack⟩ :
                Machine K N V σ B).step body with
            | none => simp
            | some m' =>
                have hquiet := (claim h hwaiting hreplayable hstep).2
                simp [hquiet]
  | _ => rfl

end Machine.Solitary

omit [DecidableEq N] [BEq V] [ToString K] [DecidableEq K] in
/-- No thread waits in a machine that is about to do a routine. -/
theorem Task.Idle.waiting_eq_nil {t : Task K N V σ B} (h : t.Idle)
    (w : World K N V σ B) : (⟨w, t.focus, t.stack⟩ : Machine K N V σ B).waiting = [] := by
  obtain ⟨routine, hfocus⟩ := h.1
  rw [Machine.waiting, hfocus]
  refine List.flatMap_eq_nil_iff.2 fun frame hframe => ?_
  obtain ⟨next, hasker⟩ := h.asker hframe
  rw [hasker]
  rfl

namespace Ensemble

/-- No machine has a thread waiting, but for one which has just missed its key. -/
def Solitary (s : Ensemble ι K N V σ B) : Prop := ∀ i, (s.machine i).Solitary

variable {s s' : Ensemble ι K N V σ B} {c : CacheId} {k : K}

/-- Only a pass that fails gives a key a failure to be replayed. -/
theorem Sound.unreplayable_lasts (hs : s.Sound) (made : s.current.step body = some m')
    (hfails : ∀ f, ¬ s.current.Fails c k f) (h : s.world.replayable c k = none) :
    m'.world.replayable c k = none := by
  cases hreplayable : m'.world.replayable c k with
  | none => rfl
  | some f =>
      obtain ⟨-, hf⟩ := World.replayable_eq_some_iff.1 hreplayable
      rcases (Posting.of_step made).remembered_source hf with hold | ⟨hfails', -⟩
      · have hold' := World.replayable_eq_some_iff.2 ⟨(hs.memo c k f hold).1, hold⟩
        simp [h] at hold'
      · exact absurd hfails' (hfails f)

/-- Unless it requests a key on several threads at once, a solitary machine stays solitary when it
makes a step. -/
theorem Sound.solitary_step (hs : s.Sound) (hcrowd : ¬ s.Crowded)
    (made : s.current.step body = some m') (hm : s.current.Solitary) : m'.Solitary := by
  obtain hnone | ⟨c, k, thread, outcomes, next, hfocus, hwaiting, hreplayable⟩ := hm
  · cases Posting.of_step made with
    | kept accounts threads held waiting unclaimed answers =>
        rw [hnone] at waiting
        exact Or.inl (List.suffix_nil.1 waiting)
    | @raced c k n fresh outcomes next accounts threads held started before after waiting answers =>
        rw [hnone, List.append_nil] at waiting
        have hlength := started.length_le
        rw [List.length_map, List.length_range] at hlength
        have hn : n < 2 := by
          have hracers : s.current.racers = n := by rw [Machine.racers, before]
          rw [← hracers]
          exact Nat.lt_of_not_le fun h => hcrowd (.race h)
        rcases fresh with _ | ⟨thread, _ | ⟨thread', rest⟩⟩
        · exact Or.inl waiting
        · have hawaits : m'.focus.Awaits c k := by
            rw [after]
            exact ⟨rfl, rfl, by simp⟩
          have hmisses := Machine.misses_of_race before made hawaits
          refine Or.inr ⟨c, k, thread, outcomes, next, after, waiting,
            hs.unreplayable_lasts made ?_ hmisses.unreplayable⟩
          rintro f ⟨x, l, p, receiver, hreply, -⟩
          simp [before] at hreply
        · simp only [List.length_cons] at hlength
          omega
    | filled fills held waiting quiet => exact Or.inl (waiting.trans hnone)
    | forgot c next focus accounts threads held waiting quiet =>
        exact Or.inl (waiting.trans hnone)
    | claimed c k thread receiver request free unpublished unreplayable updates focus stack =>
        obtain ⟨-, hwaiting⟩ | hwaiting := request.waiting_of_attempt focus stack
        · exact Or.inl (hwaiting.trans hnone)
        · simp [hnone] at hwaiting
    | settled w p outcome receiver fills updates focus held waiting unfailed =>
        exact Or.inl (waiting.trans hnone)
    | failed x l f p receiver memo reply focus remembers updates held waiting =>
        exact Or.inl (waiting.trans hnone)
  · simp only [Machine.step, hfocus] at made
    exact Or.inl (Machine.Solitary.claim hfocus hwaiting hreplayable made).1

variable [DecidableEq ι]

/-- As long as nobody requests a key that somebody else derives or waits for, all machines stay
solitary. -/
theorem Solitary.next (hsolitary : s.Solitary) (hs : s.Sound) (hcrowd : ¬ s.Crowded)
    (h : Next body s s') : s'.Solitary := by
  intro i
  cases h with
  | @step m' made turn =>
      by_cases hi : i = s.turn
      · subst hi
        rw [machine_advance_self]
        exact hs.solitary_step hcrowd made (hsolitary s.turn)
      · rw [machine_advance_of_ne s m' turn hi]
        obtain hnone | ⟨c, k, thread, outcomes, next, hfocus, hwaiting, hreplayable⟩ := hsolitary i
        · exact Or.inl hnone
        · have hawaits : (s.machine i).Seeks c k := by
            refine Or.inr ?_
            rw [hfocus]
            exact ⟨rfl, rfl, by simp⟩
          -- A pass that fails derives the key while the thread waits for it.
          have hfails (f : Failure) : ¬ s.current.Fails c k f := by
            rintro ⟨x, l, p, receiver, hreply, hc, hk⟩
            have hpass : p ∈ (s.machine s.turn).passes := by
              rw [Machine.passes, show (s.machine s.turn).focus = _ from hreply]
              exact List.mem_cons_self ..
            exact hcrowd (.seek i s.turn c k hi hawaits (Or.inl ⟨p, hpass, hc, hk⟩))
          have hkept : m'.world.replayable c k = none :=
            hs.unreplayable_lasts made hfails hreplayable
          exact Or.inr ⟨c, k, thread, outcomes, next, hfocus, hwaiting, hkept⟩
  | line ended idle task fresh client turn =>
      by_cases hi : i = s.turn
      · subst hi
        rw [machine_advance_self]
        exact Or.inl (fresh.waiting_eq_nil _)
      · rw [machine_advance_of_ne _ _ _ hi]
        exact hsolitary i

end Ensemble

end Solitude

/-! ### Runs -/

section Runs

variable [DecidableEq ι] [DecidableEq K] [DecidableEq N] [BEq V] [ToString K]
  {body : B → ContextId → K → Body K N V σ B}
  (e : Execution (Ensemble.Starts (ι := ι)) (Ensemble.Next body))

/-- How many threads that had missed a key of the cache were answered with a replayed failure, since
the counters of the cache were set back last. -/
def Execution.shared (c : CacheId) : Nat → Nat :=
  e.since (·.resets body c) fun s => (s.current.shares body c).toNat

/-- How the request counters of a cache stand to each other in a state of a run. -/
structure RequestsBalance (c : CacheId) (i : Nat) : Prop where
  /-- A counter is what has occurred since it was set back last, modulo the size of a word. -/
  counted : ∀ event, (e.state i).world.counted c event = UInt64.ofNat (e.tally c event i)
  answered : e.tally c .getHit i + e.tally c .getMiss i + e.tally c .failureReplay i =
    e.tally c .getCall i + e.shared c i
  called : e.tally c .getHit i + e.tally c .getMiss i ≤ e.tally c .getCall i
  words : (e.state i).world.counted c .getHit + (e.state i).world.counted c .getMiss +
      (e.state i).world.counted c .failureReplay =
    (e.state i).world.counted c .getCall + UInt64.ofNat (e.shared c i)
  /-- Unless several requests are made for one key at the same time, no answer is shared. -/
  alone : (∀ j < i, ¬ (e.state j).Crowded) → e.shared c i = 0 ∧
    (e.state i).world.counted c .getHit + (e.state i).world.counted c .getMiss +
      (e.state i).world.counted c .failureReplay = (e.state i).world.counted c .getCall

variable {e}

omit [DecidableEq ι] in
/-- What a step counts is balanced, up to the answers that are shared in it. -/
theorem Ensemble.incidents_balanced (s : Ensemble ι K N V σ B) (c : CacheId) :
    Balanced (s.incidents body) c (s.current.shares body c).toNat := by
  rw [incidents]
  cases hstep : s.current.step body with
  | none =>
      have hquiet : s.current.shares body c = false := by
        rw [Machine.shares]
        split
        · simp [hstep]
        · rfl
      rw [hquiet]
      exact .nil
  | some m' => exact s.current.incidents_balanced body c

/-- No answer is shared before several requests are made for one key at the same time. -/
theorem shared_eq_zero {i : Nat} (hi : i ≤ e.length) (hcrowd : ∀ j < i, ¬ (e.state j).Crowded)
    (c : CacheId) : e.shared c i = 0 := by
  refine e.since_eq_zero _ fun j hj => ?_
  have hsolitary : (e.state j).Solitary := by
    refine e.lasts (P := Ensemble.Solitary) (Nat.zero_le j) ?_ fun n _ hn hsolitary => ?_
    · obtain ⟨-, hidle⟩ := e.starts
      exact fun i => Or.inl ((hidle i).waiting_eq_nil _)
    · have hnlength : n < e.length := by omega
      exact hsolitary.next (ensemble_sound e (Nat.le_of_lt hnlength)) (hcrowd n (by omega))
        (e.goes n hnlength)
  exact congrArg Bool.toNat ((hsolitary (e.state j).turn).not_shares c)

variable (e)

/-- In every state between the instructions of any number of machines, where no request stands
between its call and what it comes to, and whether or not counters were set back before: every call
that a cache has counted was answered by a hit, a replayed failure or a miss, and whatever is
counted beyond that are the failures that were replayed to threads that had missed their key before.
Without requests for one key at the same time there are none. -/
theorem requests_balance {i : Nat} (hi : i ≤ e.length) (c : CacheId) : RequestsBalance e c i := by
  have hcounted := counted_eq_tally e hi c
  have hanswered : e.tally c .getHit i + e.tally c .getMiss i + e.tally c .failureReplay i =
      e.tally c .getCall i + e.shared c i := by
    rw [Execution.tally, Execution.tally, Execution.tally, Execution.tally, Execution.shared,
      ← e.since_add, ← e.since_add, ← e.since_add]
    exact e.since_congr _ fun j _ => ((e.state j).incidents_balanced c).answered
  have hcalled : e.tally c .getHit i + e.tally c .getMiss i ≤ e.tally c .getCall i := by
    rw [Execution.tally, Execution.tally, Execution.tally, ← e.since_add]
    exact e.since_le _ fun j _ => ((e.state j).incidents_balanced c).called
  have hwords : (e.state i).world.counted c .getHit + (e.state i).world.counted c .getMiss +
        (e.state i).world.counted c .failureReplay =
      (e.state i).world.counted c .getCall + UInt64.ofNat (e.shared c i) := by
    simp only [hcounted, ← UInt64.ofNat_add, hanswered]
  refine ⟨hcounted, hanswered, hcalled, hwords, fun hcrowd => ?_⟩
  have hnone := shared_eq_zero hi hcrowd c
  rw [hnone] at hwords
  exact ⟨hnone, hwords.trans (UInt64.add_zero _)⟩

end Runs

/-! ### A routine that fails, and threads that share its failure -/

namespace ResetMidway

/-- The builder of the first key sets the counters back, requests the second one and fails. So does
the builder of the third key. -/
def body (_ : Unit) (_ : ContextId) : Nat → Body Nat Unit Nat Unit Unit
  | 1 => .perform (.resetCounters ⟨0⟩) fun _ => .get ⟨0⟩ 2 fun _ =>
    .done (.error (.failure ⟨.counted 1, "lost"⟩))
  | 3 => .done (.error (.failure ⟨.counted 3, "lost"⟩))
  | k => .done (.ok k)

/-- Failures are remembered. -/
def config : Config Nat Nat Unit Unit where
  makeBuilder := some fun client => ((), client)
  cachesFailures := true

/-- The first two keys are requested, and then the third one on three threads at once. -/
def main : Ensemble Unit Nat Unit Nat Unit Unit where
  world := { client := () }
  task _ := ⟨.run (.perform (.newCache config) fun c => .get c 1 fun _ => .get c 2 fun _ =>
    .race c 3 3 fun _ => .done (.ok 0)), []⟩
  turn := ()

/-- The race is the step after the first sixteen. -/
def calm (s : Ensemble Unit Nat Unit Nat Unit Unit) : Bool := s.current.racers = 0

/-- Up to there no request is one of several. -/
theorem main_calm : main.runs body calm 16 (fun _ => ()) = true := by decide +kernel

/-- No step of the run is missing. -/
theorem main_runs : main.runs body (fun _ => true) 28 (fun _ => ()) = true := by decide +kernel

/-- The run of the requests. -/
def session : Execution (Ensemble.Starts (ι := Unit)) (Ensemble.Next body) :=
  main.runExecution (fun _ => ()) 28 ⟨⟨(), rfl⟩, fun _ => ⟨⟨_, rfl⟩, rfl⟩⟩ fun i hi =>
    (Ensemble.of_runs main_runs i hi).2

/-- No request among the first sixteen steps is one of several. -/
theorem session_calm : ∀ j < 16, ¬ (session.state j).Crowded := by
  intro j hj hcrowded
  have hcalm := (Ensemble.of_runs main_calm j hj).1
  cases hcrowded with
  | race several =>
      have hracers : (session.state j).current.racers = 0 := of_decide_eq_true hcalm
      omega
  | seek i i' c k ne first second => exact ne rfl

/-- The first requests balance, although the counters are set back within one of them. Two of the
three threads are answered with the failure of the first one. -/
theorem session_balances :
    (∀ j < 16, ¬ (session.state j).Crowded) ∧ RequestsBalance session ⟨0⟩ 16 ∧
      (session.state 16).world.counted ⟨0⟩ .getCall = 2 ∧
      (session.state 16).world.counted ⟨0⟩ .getHit = 1 ∧
      RequestsBalance session ⟨0⟩ 28 ∧ session.shared ⟨0⟩ 28 = 2 ∧
      (session.state 28).world.counted ⟨0⟩ .getCall = 5 ∧
      (session.state 28).world.counted ⟨0⟩ .getMiss = 4 ∧
      (session.state 28).world.counted ⟨0⟩ .failureReplay = 2 := by
  have hfirst : (session.state 16).world.counted ⟨0⟩ .getCall = 2 ∧
      (session.state 16).world.counted ⟨0⟩ .getHit = 1 := by decide +kernel
  have hlast : session.shared ⟨0⟩ 28 = 2 ∧
      (session.state 28).world.counted ⟨0⟩ .getCall = 5 ∧
      (session.state 28).world.counted ⟨0⟩ .getMiss = 4 ∧
      (session.state 28).world.counted ⟨0⟩ .failureReplay = 2 := by decide +kernel
  exact ⟨session_calm, requests_balance session (by decide) ⟨0⟩, hfirst.1, hfirst.2,
    requests_balance session (by decide) ⟨0⟩, hlast⟩

end ResetMidway

end DerivationCache
