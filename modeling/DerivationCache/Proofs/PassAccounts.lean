import DerivationCache.Proofs.Furnished
import DerivationCache.Proofs.Tallies
import Mathlib.Algebra.BigOperators.Finprod

/-!
# Accounts of passes

As long as contexts are made and committed by passes only, and the counters of a cache are not set
back, these account for every pass of the cache: a pass that was started has been committed, has
come into conflict, was given up, or is still running. Every pass is one of the four that a miss
pays for.

A builder call and a placeholder are counted where they are. A placeholder is asked for when a
pending key is requested again, and the key is not pending from then on. It had become pending when
its builder was called, and if the context is cleared, the builder has to be called again before
there can be another placeholder. So every placeholder has a builder call of its own.

## Main results

* `Ensemble.ByPasses.next`: contexts go on to be made by passes only.
* `Ensemble.ByPasses.balance`, `Ensemble.ByPasses.affords`: what a step does to the passes that are
  running, and to those that may be started.
* `called_before`: a key is pending because its builder was called.
* `passes_account`: how the counters stand to each other in every state of a run.
-/

namespace DerivationCache

variable {K N V σ B ι : Type}

/-! ### Calls and placeholders -/

section Asking

variable [DecidableEq K] [DecidableEq N] [BEq V] [ToString K]

namespace Machine

/-- The next step calls a builder within a pass of the cache. -/
def CallsIn (m : Machine K N V σ B) (c : CacheId) : Prop :=
  ∃ x k, m.CallsFor x k ∧ m.world.parent? x = some c

/-- The next step asks for a placeholder within a pass of the cache. -/
def IssuesIn (m : Machine K N V σ B) (c : CacheId) : Prop :=
  ∃ x k, m.IssuesFor x k ∧ m.world.parent? x = some c

variable {body : B → ContextId → K → Body K N V σ B} {m m' : Machine K N V σ B} {x : ContextId}
  {k : K} {c : CacheId}

/-- Whoever requests a key within a pass makes a step. -/
theorem made_of_lookup {asker : Asker K N V σ B} (hfocus : m.focus = .ask x k asker)
    {l : World.Lookup V B} {w : World K N V σ B} (h : m.world.lookup x k = some (l, w)) :
    (m.step body).isSome = true := by
  simp only [step, hfocus, stepAsk, h, bind, Option.bind_some]
  cases l <;> rfl

/-- A step that calls a builder is made. -/
theorem CallsFor.made (h : m.CallsFor x k) : (m.step body).isSome = true := by
  obtain ⟨⟨asker, hfocus⟩, hcalled⟩ := h
  simp only [called?, hfocus] at hcalled
  split at hcalled
  · rename_i hlookup
    exact made_of_lookup hfocus hlookup
  · simp at hcalled

/-- A step that asks for a placeholder is made. -/
theorem IssuesFor.made (h : m.IssuesFor x k) : (m.step body).isSome = true := by
  obtain ⟨⟨asker, hfocus⟩, hissued⟩ := h
  simp only [issued?, hfocus] at hissued
  split at hissued
  · rename_i hlookup
    exact made_of_lookup hfocus hlookup
  · simp at hissued

omit [DecidableEq N] [BEq V] in
/-- A builder is called within a context that is there. -/
theorem CallsFor.context (h : m.CallsFor x k) : ∃ context, m.world.context? x = some context := by
  obtain ⟨⟨asker, hfocus⟩, hcalled⟩ := h
  simp only [called?, hfocus] at hcalled
  split at hcalled
  · rename_i hlookup
    obtain ⟨context, hx, -⟩ := World.lookup_build hlookup
    exact ⟨context, hx⟩
  · simp at hcalled

omit [DecidableEq N] [BEq V] in
/-- A placeholder is asked for only while its key is pending. -/
theorem IssuesFor.pending (h : m.IssuesFor x k) : m.world.keyState x k = some .pending := by
  obtain ⟨⟨asker, hfocus⟩, hissued⟩ := h
  simp only [issued?, hfocus] at hissued
  split at hissued
  · assumption
  · simp at hissued

/-- Builder calls and placeholders are counted where a key is requested within a pass. -/
theorem incidents_unasked (h : ∀ x k asker, m.focus ≠ .ask x k asker) :
    ∀ i ∈ m.incidents body, i.2 ≠ .builderInvocation ∧ i.2 ≠ .placeholderIssued := by
  intro i hi
  have hrequested {c : CacheId} {k : K} (hi : i ∈ m.world.requested c k) :
      i.2 ≠ .builderInvocation ∧ i.2 ≠ .placeholderIssued := by
    rcases World.requested_events i hi with he | he | he | he <;> simp [he]
  have hdecided {x : ContextId} (hi : i ∈ m.world.decided x) :
      i.2 ≠ .builderInvocation ∧ i.2 ≠ .placeholderIssued := by
    rcases World.decided_events i hi with he | he <;> simp [he]
  rw [incidents] at hi
  split at hi
  · exact hrequested hi
  · obtain ⟨l, hl, hi⟩ := List.mem_flatten.1 hi
    rw [List.eq_of_mem_replicate hl] at hi
    exact hrequested hi
  · rename_i r next hfocus
    cases r with
    | commit x => exact hdecided hi
    | _ => simp [World.performed] at hi
  · rename_i hfocus
    exact absurd hfocus (h _ _ _)
  · exact hdecided hi
  · split at hi
    · simp at hi
    · obtain rfl := List.mem_singleton.1 hi
      simp
  · split at hi
    · obtain rfl := List.mem_singleton.1 hi
      simp
    · simp at hi
  · simp at hi

/-- What is counted where a key is requested within a pass. -/
theorem count_asked {asker : Asker K N V σ B} (hfocus : m.focus = .ask x k asker)
    (c : CacheId) (e : Metrics.Event) : (m.incidents body).count (c, e) =
      if m.world.parent? x = some c then m.asked.count e else 0 := by
  have hincidents : m.incidents body =
      (m.world.parent? x).elim [] fun c => m.asked.map (c, ·) := by rw [incidents, hfocus]
  rw [hincidents]
  cases m.world.parent? x with
  | none => rfl
  | some d =>
      have hinjective : Function.Injective fun e : Metrics.Event => (d, e) :=
        fun _ _ h => (Prod.mk.inj h).2
      by_cases hdc : d = c
      · subst hdc
        rw [if_pos rfl, Option.elim_some]
        exact List.count_map_of_injective m.asked _ hinjective e
      · rw [if_neg (by simpa using hdc), Option.elim_some]
        exact List.count_eq_zero.2 fun h => by simp [hdc] at h

/-- A builder that is called, or a placeholder that is asked for, is counted once. -/
theorem count_found {found : Option K} {e : Metrics.Event}
    (hasked : m.asked.count e = found.toList.length)
    (hfocus : ∀ k, found = some k → ∃ x asker, m.focus = .ask x k asker)
    (hunasked : ∀ i ∈ m.incidents body, i.2 = e → ∃ x k asker, m.focus = .ask x k asker)
    (c : CacheId) :
    ((∃ x k, ((∃ asker, m.focus = .ask x k asker) ∧ found = some k) ∧
      m.world.parent? x = some c) → (m.incidents body).count (c, e) = 1) ∧
    ((¬ ∃ x k, ((∃ asker, m.focus = .ask x k asker) ∧ found = some k) ∧
      m.world.parent? x = some c) → (m.incidents body).count (c, e) = 0) := by
  constructor
  · rintro ⟨x, k, ⟨⟨asker, hask⟩, hfound⟩, hc⟩
    rw [count_asked hask, if_pos hc, hasked, hfound]
    rfl
  · intro hnone
    refine List.count_eq_zero.2 fun hi => ?_
    obtain ⟨x, k, asker, hask⟩ := hunasked _ hi rfl
    have hcount := List.count_pos_iff.2 hi
    rw [count_asked hask] at hcount
    split at hcount
    · rename_i hc
      cases found with
      | none => simp [hasked] at hcount
      | some l =>
          obtain ⟨y, asker', hask'⟩ := hfocus l rfl
          obtain ⟨rfl, -, -⟩ := Focus.ask.inj (hask.symm.trans hask')
          exact hnone ⟨x, l, ⟨⟨asker', hask'⟩, rfl⟩, hc⟩
    · exact absurd hcount (Nat.lt_irrefl 0)

omit [DecidableEq N] [BEq V] in
/-- Builders are called when a key is requested within a pass, and at no other moment. -/
theorem focus_of_called (h : m.called? = some k) : ∃ x asker, m.focus = .ask x k asker := by
  rw [called?] at h
  split at h
  · rename_i x l asker hfocus
    split at h
    · obtain rfl := Option.some.inj h
      exact ⟨x, asker, hfocus⟩
    · simp at h
  · simp at h

omit [DecidableEq N] [BEq V] in
/-- Placeholders are asked for when a key is requested within a pass, and at no other moment. -/
theorem focus_of_issued (h : m.issued? = some k) : ∃ x asker, m.focus = .ask x k asker := by
  rw [issued?] at h
  split at h
  · rename_i x l asker hfocus
    split at h
    · split at h
      · obtain rfl := Option.some.inj h
        exact ⟨x, asker, hfocus⟩
      · simp at h
    · simp at h
  · simp at h

variable (body m)

/-- A step counts a builder call on a cache exactly if it calls a builder within a pass of the
cache. -/
theorem count_calls (c : CacheId) :
    (m.CallsIn c → (m.incidents body).count (c, .builderInvocation) = 1) ∧
      (¬ m.CallsIn c → (m.incidents body).count (c, .builderInvocation) = 0) := by
  refine count_found ?_ (fun k => focus_of_called) (fun i hi he => ?_) c
  · rw [asked]
    cases m.called? <;> cases m.issued? <;> rfl
  · by_contra hask
    exact (incidents_unasked (fun x k asker hfocus => hask ⟨x, k, asker, hfocus⟩) i hi).1 he

/-- A step counts a placeholder on a cache exactly if it asks for one within a pass of the cache. -/
theorem count_issues (c : CacheId) :
    (m.IssuesIn c → (m.incidents body).count (c, .placeholderIssued) = 1) ∧
      (¬ m.IssuesIn c → (m.incidents body).count (c, .placeholderIssued) = 0) := by
  refine count_found ?_ (fun k => focus_of_issued) (fun i hi he => ?_) c
  · rw [asked]
    cases m.called? <;> cases m.issued? <;> rfl
  · by_contra hask
    exact (incidents_unasked (fun x k asker hfocus => hask ⟨x, k, asker, hfocus⟩) i hi).2 he

end Machine

end Asking

/-! ### Ensembles whose contexts are made by passes -/

namespace Task.Idle

variable {t : Task K N V σ B}

/-- No pass is running in a machine that is about to do a routine. -/
theorem sites_eq_nil (h : t.Idle) (w : World K N V σ B) :
    (⟨w, t.focus, t.stack⟩ : Machine K N V σ B).sites = [] := by
  obtain ⟨routine, hfocus⟩ := h.1
  rw [Machine.sites, hfocus]
  refine List.flatMap_eq_nil_iff.2 fun frame hframe => ?_
  obtain ⟨next, hasker⟩ := h.asker hframe
  rw [hasker]
  rfl

end Task.Idle

/-- An amount that a machine has apart from the world, and has nothing of when it is about to do a
routine. -/
structure Machine.OfTask (f : Machine K N V σ B → Nat) : Prop where
  own : ∀ m w, f { m with world := w } = f m
  idle : ∀ t : Task K N V σ B, t.Idle → ∀ w, f ⟨w, t.focus, t.stack⟩ = 0

/-- Which passes of a machine are running is seen from the machine alone. -/
theorem Machine.running_ofTask (c : CacheId) :
    Machine.OfTask fun m : Machine K N V σ B => m.running c where
  own _ _ := rfl
  idle t ht w := by
    rw [running, ht.sites_eq_nil]
    rfl

/-- A machine that is about to do a routine has to miss a key before it can start a pass. -/
theorem Machine.budget_ofTask (c : CacheId) :
    Machine.OfTask fun m : Machine K N V σ B => m.budget c where
  own _ _ := rfl
  idle t ht w := by
    obtain ⟨routine, hfocus⟩ := ht.1
    have hframes : (t.stack.map fun frame => frame.asker.budget c).sum = 0 := by
      refine List.sum_eq_zero fun n hn => ?_
      obtain ⟨frame, hframe, rfl⟩ := List.mem_map.1 hn
      obtain ⟨next, hasker⟩ := ht.asker hframe
      rw [hasker]
      rfl
    rw [budget, hfocus, hframes]
    rfl

namespace Ensemble

section Sums

/-- The machines that are not about to do a routine. -/
def busy (s : Ensemble ι K N V σ B) : Set ι := {i | ¬ (s.task i).Idle}

/-- How many passes of the cache are running. -/
noncomputable def running (s : Ensemble ι K N V σ B) (c : CacheId) : Nat :=
  ∑ᶠ i, (s.machine i).running c

/-- How many passes may be started in the cache without another miss. -/
noncomputable def budget (s : Ensemble ι K N V σ B) (c : CacheId) : Nat :=
  ∑ᶠ i, (s.machine i).budget c

variable [DecidableEq ι] {s : Ensemble ι K N V σ B} {f : Machine K N V σ B → Nat}

/-- Only the machine that has its turn can become busy. -/
theorem busy_advance (m : Machine K N V σ B) (turn : ι) :
    (s.advance m turn).busy ⊆ insert s.turn s.busy := by
  intro i hi
  by_cases hturn : i = s.turn
  · exact Or.inl hturn
  · have hsame : (s.advance m turn).task i = s.task i := Function.update_of_ne hturn ..
    refine Or.inr fun hidle => hi ?_
    rwa [hsame]

/-- What the machines of an ensemble have of an amount changes as it does for the one that has its
turn. -/
theorem sum_advance (hbusy : s.busy.Finite) (hf : Machine.OfTask f) (m : Machine K N V σ B)
    (turn : ι) :
    (∑ᶠ i, f ((s.advance m turn).machine i)) + f s.current = (∑ᶠ i, f (s.machine i)) + f m := by
  let involved : Finset ι := insert s.turn hbusy.toFinset
  have hturn : s.turn ∈ involved := Finset.mem_insert_self ..
  have hin {i : ι} (h : i ∈ insert s.turn s.busy) : i ∈ involved := by simpa [involved] using h
  have hbefore : (Function.support fun i => f (s.machine i)) ⊆ involved := by
    intro i hi
    exact hin (Or.inr fun hidle => hi (hf.idle _ hidle _))
  have hafter : (Function.support fun i => f ((s.advance m turn).machine i)) ⊆ involved := by
    intro i hi
    exact hin (busy_advance m turn fun hidle => hi (hf.idle _ hidle _))
  have hothers : ∑ i ∈ involved.erase s.turn, f ((s.advance m turn).machine i) =
      ∑ i ∈ involved.erase s.turn, f (s.machine i) :=
    Finset.sum_congr rfl fun i hi => by
      rw [machine_advance_of_ne s m turn (Finset.ne_of_mem_erase hi), hf.own]
  rw [finsum_eq_sum_of_support_subset _ hbefore, finsum_eq_sum_of_support_subset _ hafter,
    ← Finset.add_sum_erase _ (fun i => f ((s.advance m turn).machine i)) hturn,
    ← Finset.add_sum_erase _ (fun i => f (s.machine i)) hturn, hothers, machine_advance_self,
    current]
  omega

/-- A machine that has ended is given something else to do. -/
theorem sum_line (hbusy : s.busy.Finite) (hf : Machine.OfTask f) (idle : (s.task s.turn).Idle)
    {task : Task K N V σ B} (fresh : task.Idle) (client : σ) (turn : ι) :
    ∑ᶠ i, f ((s.advance ⟨{ s.world with client }, task.focus, task.stack⟩ turn).machine i) =
      ∑ᶠ i, f (s.machine i) := by
  have hsum := sum_advance hbusy hf ⟨{ s.world with client }, task.focus, task.stack⟩ turn
  have hbefore : f s.current = 0 := hf.idle _ idle s.world
  rw [hbefore, hf.idle task fresh] at hsum
  exact hsum

end Sums

/-- Contexts are made by passes only, in caches that can derive values. -/
structure ByPasses (s : Ensemble ι K N V σ B) : Prop where
  busy : s.busy.Finite
  furnished : s.world.Furnished
  derives : ∀ i c k, (s.machine i).Seeks c k → s.world.Derives c
  sited : ∀ i, ∀ q ∈ (s.machine i).sites, s.world.parent? q.1 = some q.2.cache
  answered : ∀ i x k asker, (s.machine i).focus ≠ .reply x k (.ok none) asker

variable [DecidableEq ι] [DecidableEq K] [DecidableEq N] [BEq V] [ToString K]
  {body : B → ContextId → K → Body K N V σ B} {s s' : Ensemble ι K N V σ B}
  {m' : Machine K N V σ B} {c : CacheId}

variable (body s) in
/-- The step that is made ends a pass of the cache without a decision on its commit. -/
def givesUp (c : CacheId) : Bool := (s.current.step body).isSome && s.current.givesUp c

namespace ByPasses

omit [DecidableEq ι] [DecidableEq K] [DecidableEq N] [BEq V] [ToString K] in
/-- At the start no context has been made by hand, as there is none at all. -/
theorem of_starts (h : s.Starts) : s.ByPasses := by
  obtain ⟨⟨client, hworld⟩, hidle⟩ := h
  refine ⟨?_, fun x context hx => ?_, fun i c k hseeks => ?_, fun i q hq => ?_,
    fun i x k asker hfocus => ?_⟩
  · have hnone : s.busy = ∅ := Set.eq_empty_of_forall_notMem fun i hi => hi (hidle i)
    rw [hnone]
    exact Set.finite_empty
  · simp [hworld, World.context?] at hx
  · exact absurd hseeks ((hidle i).not_seeks s.world c k)
  · rw [machine, (hidle i).sites_eq_nil] at hq
    simp at hq
  · obtain ⟨⟨routine, hrun⟩, -⟩ := hidle i
    simp [machine, hrun] at hfocus

omit [DecidableEq ι] in
/-- What a step does to passes holds of the machine that has its turn, if it makes no context by
hand. -/
theorem passStep (hs : s.ByPasses) (made : s.current.step body = some m')
    (hhand : s.current.byHand = false) : PassStep body s.current m' :=
  .of_step made hhand (hs.answered s.turn)

/-- The machine that has its turn makes a step. -/
theorem step (hs : s.ByPasses) (made : s.current.step body = some m')
    (hhand : s.current.byHand = false) (turn : ι) : (s.advance m' turn).ByPasses where
  busy := (hs.busy.insert s.turn).subset (busy_advance m' turn)
  furnished := by
    refine World.Furnished.step hs.furnished made hhand fun p hp => ?_
    exact hs.derives s.turn p.cache p.key (Or.inl ⟨p, hp, rfl, rfl⟩)
  derives i c k hseeks := by
    have hgrows := (Transition.of_step made).obeys.grows
    rcases seeks_of_step made hseeks with hold | hmisses
    · exact (hs.derives i c k hold).grows hgrows
    · exact hmisses.derives.grows hgrows
  sited i q hq := by
    have hgrows := (Transition.of_step made).obeys.grows
    by_cases hi : i = s.turn
    · subst hi
      rw [machine_advance_self] at hq
      exact (hs.passStep made hhand).sited hgrows (hs.sited s.turn) q hq
    · rw [machine_advance_of_ne s m' turn hi] at hq
      exact hgrows.parent (hs.sited i q hq)
  answered i x k asker := by
    by_cases hi : i = s.turn
    · subst hi
      rw [machine_advance_self]
      exact World.Furnished.answered hs.furnished made
    · rw [machine_advance_of_ne s m' turn hi]
      exact hs.answered i x k asker

omit [DecidableEq K] [DecidableEq N] [BEq V] [ToString K] in
/-- A machine that has ended is given something else to do. -/
theorem line (hs : s.ByPasses) {task : Task K N V σ B} (fresh : task.Idle) (client : σ) (turn : ι) :
    (s.advance ⟨{ s.world with client }, task.focus, task.stack⟩ turn).ByPasses where
  busy := (hs.busy.insert s.turn).subset (busy_advance _ turn)
  furnished := hs.furnished
  derives i c k hseeks := hs.derives i c k (seeks_of_line fresh hseeks)
  sited i q hq := by
    by_cases hi : i = s.turn
    · subst hi
      rw [machine_advance_self, fresh.sites_eq_nil] at hq
      simp at hq
    · rw [machine_advance_of_ne _ _ _ hi] at hq
      exact hs.sited i q hq
  answered i x k asker := by
    by_cases hi : i = s.turn
    · subst hi
      rw [machine_advance_self]
      obtain ⟨⟨routine, hfocus⟩, -⟩ := fresh
      simp [hfocus]
    · rw [machine_advance_of_ne _ _ _ hi]
      exact hs.answered i x k asker

/-- As long as nobody makes a context by hand, all contexts are those of passes. -/
theorem next (hs : s.ByPasses) (hhand : s.current.byHand = false) (h : Next body s s') :
    s'.ByPasses := by
  cases h with
  | step made turn => exact hs.step made hhand turn
  | line ended idle task fresh client turn => exact hs.line fresh client turn

/-- Passes that are started are running until their commit is decided or they are given up. -/
theorem balance (hs : s.ByPasses) (hhand : s.current.byHand = false) (h : Next body s s')
    (c : CacheId) : (s.incidents body).count (c, .pass) + s.running c =
      s'.running c + ((s.incidents body).count (c, .commit) +
        (s.incidents body).count (c, .commitConflict) + (s.givesUp body c).toNat) := by
  cases h with
  | @step m' made turn =>
      have hsum := sum_advance hs.busy (Machine.running_ofTask c) m' turn
      have hbalance := (hs.passStep made hhand).balance (hs.sited s.turn) c
      simp only [incidents, givesUp, made, Option.isSome_some, if_true, Bool.true_and, running]
      omega
  | line ended idle task fresh client turn =>
      have hsum := sum_line hs.busy (Machine.running_ofTask c) idle fresh client turn
      simp only [incidents, givesUp, ended, Option.isSome_none, Bool.false_and, running, hsum]
      simp

/-- Passes are paid for by misses. -/
theorem affords (hs : s.ByPasses) (hhand : s.current.byHand = false) (h : Next body s s')
    (c : CacheId) : s'.budget c + (s.incidents body).count (c, .pass) ≤
      s.budget c + passLimit * (s.incidents body).count (c, .getMiss) := by
  cases h with
  | @step m' made turn =>
      have hsum := sum_advance hs.busy (Machine.budget_ofTask c) m' turn
      have haffords := (hs.passStep made hhand).affords c
      simp only [incidents, made, Option.isSome_some, if_true, budget]
      omega
  | line ended idle task fresh client turn =>
      have hsum := sum_line hs.busy (Machine.budget_ofTask c) idle fresh client turn
      simp only [incidents, ended, Option.isSome_none, budget, hsum]
      simp

end ByPasses

end Ensemble

/-! ### Runs -/

section Runs

variable [DecidableEq ι] [DecidableEq K] [DecidableEq N] [BEq V] [ToString K]
  {body : B → ContextId → K → Body K N V σ B}

/-- What is published when a turn begins is published when it has ended. -/
theorem Ensemble.Next.grows {s s' : Ensemble ι K N V σ B} (h : Next body s s') :
    s.world.Grows s'.world := by
  cases h with
  | step made turn => exact (Transition.of_step made).obeys.grows
  | line ended idle task fresh client turn => exact .of_eq rfl rfl

omit [DecidableEq ι] in
/-- A machine that sets no counters back does not do so in its turn. -/
theorem Ensemble.resets_of_quiet {s : Ensemble ι K N V σ B} {c : CacheId}
    (h : s.current.resets c = false) : s.resets body c = false := by
  rw [resets, h, Bool.and_false]

omit [DecidableEq ι] in
/-- A turn counts a builder call on a cache exactly if it calls a builder within a pass of the
cache. -/
theorem Ensemble.count_calls (s : Ensemble ι K N V σ B) (c : CacheId) :
    (s.current.CallsIn c → (s.incidents body).count (c, .builderInvocation) = 1) ∧
      (¬ s.current.CallsIn c → (s.incidents body).count (c, .builderInvocation) = 0) := by
  rw [incidents]
  split
  · exact s.current.count_calls body c
  · rename_i hnone
    refine ⟨?_, fun _ => rfl⟩
    rintro ⟨x, k, hcalls, -⟩
    exact absurd hcalls.made hnone

omit [DecidableEq ι] in
/-- A turn counts a placeholder on a cache exactly if it asks for one within a pass of the cache. -/
theorem Ensemble.count_issues (s : Ensemble ι K N V σ B) (c : CacheId) :
    (s.current.IssuesIn c → (s.incidents body).count (c, .placeholderIssued) = 1) ∧
      (¬ s.current.IssuesIn c → (s.incidents body).count (c, .placeholderIssued) = 0) := by
  rw [incidents]
  split
  · exact s.current.count_issues body c
  · rename_i hnone
    refine ⟨?_, fun _ => rfl⟩
    rintro ⟨x, k, hissues, -⟩
    exact absurd hissues.made hnone

variable (e : Execution (Ensemble.Starts (ι := ι)) (Ensemble.Next body))

/-- How many passes of the cache were given up, since its counters were set back last. -/
def Execution.abandoned (c : CacheId) : Nat → Nat :=
  e.since (·.resets body c) fun s => (s.givesUp body c).toNat

/-- At this step the builder of the key is called within the pass of the context, and until the
later state it is not called again, nor is a placeholder asked for. -/
structure Execution.LastCall (x : ContextId) (k : K) (l i : Nat) : Prop where
  before : l < i
  calls : (e.state l).current.CallsFor x k
  quiet : ∀ n, l < n → n < i →
    ¬ (e.state n).current.CallsFor x k ∧ ¬ (e.state n).current.IssuesFor x k

/-- How the passes, the builder calls and the placeholders of a cache stand to each other in a state
of a run, if this is how often each event has occurred. -/
structure PassAccounts (c : CacheId) (i : Nat) (count : Metrics.Event → Nat) : Prop where
  balance : count .pass =
    count .commit + count .commitConflict + e.abandoned c i + (e.state i).running c
  paid : count .pass ≤ passLimit * count .getMiss
  calls : count .builderInvocation = {j | j < i ∧ (e.state j).current.CallsIn c}.ncard
  issues : count .placeholderIssued = {j | j < i ∧ (e.state j).current.IssuesIn c}.ncard
  fewer : count .placeholderIssued ≤ count .builderInvocation
  /-- Every placeholder has a builder call of its own, for the same key and within the same pass. -/
  matched : ∀ j < i, ∀ x k, (e.state j).current.IssuesFor x k → ∃ l, e.LastCall x k l j

variable {e} {i : Nat}

/-- From each state of a run to every later one, the world grows. -/
theorem ensemble_grows {j : Nat} (hij : i ≤ j) (hj : j ≤ e.length) :
    (e.state i).world.Grows (e.state j).world :=
  e.lasts (P := fun s => (e.state i).world.Grows s.world) hij (.refl _) fun n _ hn hgrows =>
    hgrows.trans (e.goes n (Nat.lt_of_lt_of_le hn hj)).grows

/-- In a run in which nobody makes a context by hand, all contexts are those of passes. -/
theorem ensemble_byPasses (hi : i ≤ e.length)
    (hhand : ∀ j < i, (e.state j).current.byHand = false) : (e.state i).ByPasses :=
  e.lasts (P := Ensemble.ByPasses) (Nat.zero_le i) (.of_starts e.starts) fun n _ hn hs =>
    hs.next (hhand n hn) (e.goes n (Nat.lt_of_lt_of_le hn hi))

section Placeholders

variable (hi : i ≤ e.length) (hhand : ∀ j < i, (e.state j).current.byHand = false)
include hi hhand

/-- A key is pending because its builder was called, and no placeholder has been asked for since
then. -/
theorem called_before {x : ContextId} {k : K}
    (hpending : (e.state i).world.keyState x k = some .pending) : ∃ l, e.LastCall x k l i := by
  induction i with
  | zero =>
      obtain ⟨⟨client, hworld⟩, -⟩ := e.starts
      simp [hworld, World.keyState, World.context?] at hpending
  | succ i ih =>
      have hhand' : ∀ j < i, (e.state j).current.byHand = false := fun j hj =>
        hhand j (Nat.lt_succ_of_lt hj)
      have hstays (hold : (e.state i).world.keyState x k = some .pending)
          (hquiet : ¬ (e.state i).current.CallsFor x k ∧ ¬ (e.state i).current.IssuesFor x k) :
          ∃ l, e.LastCall x k l (i + 1) := by
        obtain ⟨l, hl⟩ := ih (Nat.le_of_succ_le hi) hhand' hold
        refine ⟨l, Nat.lt_succ_of_lt hl.before, hl.calls, fun n hln hn => ?_⟩
        rcases Nat.lt_succ_iff_lt_or_eq.1 hn with hn | rfl
        · exact hl.quiet n hln hn
        · exact hquiet
      have hs := ensemble_byPasses (Nat.le_of_succ_le hi) hhand'
      have hgoes := e.goes i hi
      generalize e.state (i + 1) = s' at hgoes hpending
      cases hgoes with
      | step made turn =>
          by_cases hold : (e.state i).world.keyState x k = some .pending
          · refine hstays hold ⟨fun hcalls => ?_, fun hissues => ?_⟩
            · have hunseen : (e.state i).world.stage x k = .unseen := (hcalls.stages made).1
              simp [World.stage, hold, Entry.stage] at hunseen
            · have hissued := (hissues.stages made).2
              rw [Ensemble.advance_world] at hpending
              simp [World.stage, hpending, Entry.stage] at hissued
          · have hcalls := World.Furnished.callsFor hs.furnished made hold hpending
            exact ⟨i, Nat.lt_succ_self i, hcalls, fun n hin hn => by omega⟩
      | line ended idle task fresh client turn =>
          have hnone : (e.state i).current.step body = none := ended
          refine hstays hpending ⟨fun hcalls => ?_, fun hissues => ?_⟩
          · have hmade : ((e.state i).current.step body).isSome = true := hcalls.made
            simp [hnone] at hmade
          · have hmade : ((e.state i).current.step body).isSome = true := hissues.made
            simp [hnone] at hmade

/-- Every placeholder has a builder call of its own. -/
theorem issue_matched {j : Nat} (hj : j < i) {x : ContextId} {k : K}
    (hissues : (e.state j).current.IssuesFor x k) : ∃ l, e.LastCall x k l j := by
  have hjlength : j ≤ e.length := Nat.le_trans (Nat.le_of_lt hj) hi
  exact called_before hjlength (fun n hn => hhand n (Nat.lt_trans hn hj)) hissues.pending

/-- No more placeholders are asked for than builders are called. -/
theorem issues_le_calls (c : CacheId) : {j | j < i ∧ (e.state j).current.IssuesIn c}.ncard ≤
    {j | j < i ∧ (e.state j).current.CallsIn c}.ncard := by
  have hmatched : ∀ j, j < i ∧ (e.state j).current.IssuesIn c → ∃ l x k,
      (e.state j).current.IssuesFor x k ∧ e.LastCall x k l j ∧
      (e.state l).world.parent? x = some c := by
    rintro j ⟨hj, x, k, hissues, hc⟩
    obtain ⟨l, hl⟩ := issue_matched hi hhand hj hissues
    refine ⟨l, x, k, hissues, hl, ?_⟩
    -- The context keeps its parent until the placeholder is asked for.
    obtain ⟨context, hx⟩ := hl.calls.context
    have hgrows := ensemble_grows (e := e) (Nat.le_of_lt hl.before)
      (Nat.le_trans (Nat.le_of_lt hj) hi)
    exact (hgrows.parent_eq hx).symm.trans hc
  choose! f hf using hmatched
  refine Set.ncard_le_ncard_of_injOn f (fun j hj => ?_) (fun j hj j' hj' heq => ?_)
    ((Set.finite_lt_nat i).subset fun j hj => hj.1)
  · obtain ⟨x, k, -, hcall, hparent⟩ := hf j hj
    exact ⟨Nat.lt_trans hcall.before hj.1, x, k, hcall.calls, hparent⟩
  · obtain ⟨x, k, hissues, hcall, -⟩ := hf j hj
    obtain ⟨x', k', hissues', hcall', -⟩ := hf j' hj'
    rw [← heq] at hcall'
    -- Both belong to the same key, so neither can come before the other.
    obtain ⟨⟨asker, hfocus⟩, -⟩ := hcall.calls
    obtain ⟨⟨asker', hfocus'⟩, -⟩ := hcall'.calls
    obtain ⟨rfl, rfl, -⟩ := Focus.ask.inj (hfocus.symm.trans hfocus')
    rcases Nat.lt_trichotomy j j' with hlt | hsame | hlt
    · exact absurd hissues (hcall'.quiet j hcall.before hlt).2
    · exact hsame
    · exact absurd hissues' (hcall.quiet j' hcall'.before hlt).2

end Placeholders

section Passes

variable {c : CacheId} (hi : i ≤ e.length)
  (hquiet : ∀ j < i, (e.state j).current.resets c = false)
  (hhand : ∀ j < i, (e.state j).current.byHand = false)
include hi hquiet hhand

/-- A pass that was started has been committed, has come into conflict, was given up, or is still
running. -/
theorem tally_balance : e.tally c .pass i = e.tally c .commit i + e.tally c .commitConflict i +
    e.abandoned c i + (e.state i).running c := by
  obtain ⟨-, hidle⟩ := e.starts
  rw [Execution.tally, Execution.tally, Execution.tally, Execution.abandoned, ← e.since_add,
    ← e.since_add]
  refine e.since_balance (fun s => s.running c) (fun j hj => Ensemble.resets_of_quiet (hquiet j hj))
    ?_ fun j hj => ?_
  · exact finsum_eq_zero_of_forall_eq_zero fun i => (Machine.running_ofTask c).idle _ (hidle i) _
  · have hjlength : j < e.length := Nat.lt_of_lt_of_le hj hi
    have hpasses : (e.state j).ByPasses :=
      ensemble_byPasses (Nat.le_of_lt hjlength) fun n hn => hhand n (Nat.lt_trans hn hj)
    exact hpasses.balance (hhand j hj) (e.goes j hjlength) c

/-- A miss pays for four passes. -/
theorem tally_paid : e.tally c .pass i ≤ passLimit * e.tally c .getMiss i := by
  obtain ⟨-, hidle⟩ := e.starts
  have hpaid : (e.state i).budget c + e.tally c .pass i ≤ passLimit * e.tally c .getMiss i := by
    rw [Execution.tally, Execution.tally, ← e.since_mul]
    refine e.since_affords (fun s => s.budget c)
      (fun j hj => Ensemble.resets_of_quiet (hquiet j hj)) ?_ fun j hj => ?_
    · exact finsum_eq_zero_of_forall_eq_zero fun i => (Machine.budget_ofTask c).idle _ (hidle i) _
    · have hjlength : j < e.length := Nat.lt_of_lt_of_le hj hi
      have hpasses : (e.state j).ByPasses :=
        ensemble_byPasses (Nat.le_of_lt hjlength) fun n hn => hhand n (Nat.lt_trans hn hj)
      exact hpasses.affords (hhand j hj) (e.goes j hjlength) c
  exact Nat.le_trans (Nat.le_add_left _ _) hpaid

end Passes

variable (e)

/-- In every state of every run of any number of machines, in which contexts are made and committed
by passes only and the counters of the cache are not set back: a counter is what has occurred,
modulo the size of a word, and as long as no word overflows, the counters account for the passes of
the cache, for the builders that were called within them and for the placeholders. -/
theorem passes_account (hi : i ≤ e.length) (c : CacheId)
    (hquiet : ∀ j < i, (e.state j).current.resets c = false)
    (hhand : ∀ j < i, (e.state j).current.byHand = false) :
    (∀ event, (e.state i).world.counted c event = UInt64.ofNat (e.tally c event i)) ∧
      PassAccounts e c i (fun event => e.tally c event i) ∧
      ((∀ event, e.tally c event i < 2 ^ 64) →
        PassAccounts e c i fun event => ((e.state i).world.counted c event).toNat) := by
  have hcounted := counted_eq_tally e hi c
  have hresets : ∀ j < i, (e.state j).resets body c = false := fun j hj =>
    Ensemble.resets_of_quiet (hquiet j hj)
  have hcalls : e.tally c .builderInvocation i =
      {j | j < i ∧ (e.state j).current.CallsIn c}.ncard :=
    e.since_eq_ncard (P := fun s => s.current.CallsIn c) hresets fun j _ =>
      (e.state j).count_calls c
  have hissues : e.tally c .placeholderIssued i =
      {j | j < i ∧ (e.state j).current.IssuesIn c}.ncard :=
    e.since_eq_ncard (P := fun s => s.current.IssuesIn c) hresets fun j _ =>
      (e.state j).count_issues c
  have haccounts : PassAccounts e c i fun event => e.tally c event i :=
    { balance := tally_balance hi hquiet hhand
      paid := tally_paid hi hquiet hhand
      calls := hcalls
      issues := hissues
      fewer := by
        rw [hcalls, hissues]
        exact issues_le_calls hi hhand c
      matched := fun j hj x k => issue_matched hi hhand hj }
  refine ⟨hcounted, haccounts, fun hsmall => ?_⟩
  have hwords : (fun event => ((e.state i).world.counted c event).toNat) =
      fun event => e.tally c event i := by
    funext event
    rw [hcounted, UInt64.toNat_ofNat_of_lt' (hsmall event)]
  rw [hwords]
  exact haccounts

end Runs

/-! ### A conflict, an error, and a panic within two passes -/

namespace ConflictErrorPanic

/-- The builder of the first key requests its own key and inserts another value for it, so that its
commit comes into conflict. That of the third key fails. That of the fourth key requests the second
key, and panics. -/
def body (_ : Unit) (x : ContextId) : Nat → Body Nat Unit Nat Unit Unit
  | 1 => .build x 1 fun _ => .perform (.insert ⟨0⟩ 1 9) fun _ => .done (.ok 1)
  | 3 => .done (.error (.failure ⟨.counted 3, "lost"⟩))
  | 4 => .get ⟨0⟩ 2 fun _ => .panic "lost"
  | k => .done (.ok k)

/-- The builder of a pass is made without further ado, and stand-ins are told apart by their
cells. -/
def config : Config Nat Nat Unit Unit where
  makeBuilder := some fun client => ((), client)
  placeholders := some fun _ cell client => ((.forwarding, 100 + cell.index), client)

/-- A cache is made, and three keys are requested. -/
def main : Ensemble Unit Nat Unit Nat Unit Unit where
  world := { client := () }
  task _ := ⟨.run (.perform (.newCache config) fun c => .get c 1 fun _ => .get c 3 fun _ =>
    .get c 4 fun _ => .done (.ok 0)), []⟩
  turn := ()

/-- No counters are set back, and no contexts made by hand. -/
def plain (s : Ensemble Unit Nat Unit Nat Unit Unit) : Bool :=
  !s.current.resets ⟨0⟩ && !s.current.byHand

/-- All steps of the run are made, and none of them makes a context by hand or sets counters
back. -/
theorem main_runs : main.runs body plain 28 (fun _ => ()) = true := by decide +kernel

/-- The run of the requests. -/
def session : Execution (Ensemble.Starts (ι := Unit)) (Ensemble.Next body) :=
  main.runExecution (fun _ => ()) 28 ⟨⟨(), rfl⟩, fun _ => ⟨⟨_, rfl⟩, rfl⟩⟩ fun i hi =>
    (Ensemble.of_runs main_runs i hi).2

/-- The same of the states of the run. -/
theorem session_plain : ∀ j < 28, (session.state j).current.resets ⟨0⟩ = false ∧
    (session.state j).current.byHand = false := by
  intro j hj
  have hplain := (Ensemble.of_runs main_runs j hj).1
  rw [plain, Bool.and_eq_true, Bool.not_eq_true', Bool.not_eq_true'] at hplain
  exact hplain

/-- Nothing is counted so often that a counter overflows. -/
theorem session_small : ∀ event ∈ [Metrics.Event.getCall, .getHit, .getMiss, .pass,
    .builderInvocation, .placeholderIssued, .commit, .commitConflict, .failureReplay],
    session.tally ⟨0⟩ event 28 < 2 ^ 64 := by decide +kernel

/-- After twenty-four steps, the pass of the second key runs within that of the fourth one. At the
end, one of the four passes is committed, one has come into conflict, and two were given up. -/
theorem session_accounts :
    (∀ j < 28, (session.state j).current.resets ⟨0⟩ = false ∧
      (session.state j).current.byHand = false) ∧
    PassAccounts session ⟨0⟩ 24 (fun event => session.tally ⟨0⟩ event 24) ∧
    (session.state 24).running ⟨0⟩ = 2 ∧
    (∀ event, session.tally ⟨0⟩ event 28 < 2 ^ 64) ∧
    PassAccounts session ⟨0⟩ 28 (fun event =>
      ((session.state 28).world.counted ⟨0⟩ event).toNat) ∧
    (session.state 28).world.counted ⟨0⟩ .pass = 4 ∧
    (session.state 28).world.counted ⟨0⟩ .commit = 1 ∧
    (session.state 28).world.counted ⟨0⟩ .commitConflict = 1 ∧
    session.abandoned ⟨0⟩ 28 = 2 ∧
    (session.state 28).world.counted ⟨0⟩ .builderInvocation = 4 ∧
    (session.state 28).world.counted ⟨0⟩ .placeholderIssued = 1 := by
  have hsmall (event : Metrics.Event) : session.tally ⟨0⟩ event 28 < 2 ^ 64 :=
    session_small event (by cases event <;> simp)
  have hrunning : (session.state 24).running ⟨0⟩ = 2 := by
    have hmachine : ((session.state 24).machine ()).running ⟨0⟩ = 2 := by decide +kernel
    rw [Ensemble.running, finsum_unique]
    exact hmachine
  have hlast : (session.state 28).world.counted ⟨0⟩ .pass = 4 ∧
      (session.state 28).world.counted ⟨0⟩ .commit = 1 ∧
      (session.state 28).world.counted ⟨0⟩ .commitConflict = 1 ∧
      session.abandoned ⟨0⟩ 28 = 2 ∧
      (session.state 28).world.counted ⟨0⟩ .builderInvocation = 4 ∧
      (session.state 28).world.counted ⟨0⟩ .placeholderIssued = 1 := by decide +kernel
  have hplain := session_plain
  have hmiddle := (passes_account session (i := 24) (by decide) ⟨0⟩
    (fun j hj => (hplain j (by omega)).1) fun j hj => (hplain j (by omega)).2).2.1
  have hend := (passes_account session (i := 28) (by decide) ⟨0⟩
    (fun j hj => (hplain j hj).1) fun j hj => (hplain j hj).2).2.2 hsmall
  exact ⟨hplain, hmiddle, hrunning, hsmall, hend, hlast⟩

end ConflictErrorPanic

end DerivationCache
