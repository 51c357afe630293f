import DerivationCache.Proofs.FailureMemo
import DerivationCache.Proofs.InFlight

/-!
# Ensembles

An `Ensemble` is any number of machines in one world. One of them has its turn, and makes a step. A
machine whose thread has to wait for a key that another one is deriving has no step to make, and
goes on when it has its turn after the key was given back. A machine that has ended may be given
something else to do.

What a single machine holds is told apart by threads. The machines of an ensemble may run on the
threads of the frames that they begin with, so that no two of them need be on the first thread.

## Main results

* `Machine.seeks_source`: a key that is being derived, or waited for, was missed by a request.
* `Ensemble.Sound.next`: every claim is on record, only keys of the namespace have failures
  remembered, in caches that remember failures, and none that is being derived has one.
* `Ensemble.runExecution`: the states that an ensemble goes through are an execution.
-/

namespace DerivationCache

variable {K N V σ B ι : Type} [DecidableEq K]

/-! ### Keys that are sought -/

section Seeking

omit [DecidableEq K]

/-- Threads wait for the key that has just been delivered, or for their turn to reach for it. -/
def Focus.Awaits (c : CacheId) (k : K) : Focus K N V σ B → Prop
  | .deliver d l _ receiver => d = c ∧ l = k ∧ receiver.waiting ≠ []
  | .wake d l waiting _ _ => d = c ∧ l = k ∧ waiting ≠ []
  | _ => False

/-- The key is being derived, or threads wait for it. -/
def Machine.Seeks (m : Machine K N V σ B) (c : CacheId) (k : K) : Prop :=
  (∃ p ∈ m.passes, p.cache = c ∧ p.key = k) ∨ m.focus.Awaits c k

end Seeking

section Steps

variable [DecidableEq N] [BEq V] [ToString K] {body : B → ContextId → K → Body K N V σ B}
  {m m' : Machine K N V σ B} {c : CacheId} {k : K}

omit [DecidableEq N] [BEq V] in
/-- A request for the key has to derive it: the key lies in the namespace of a cache that can, and
has neither a value nor a failure to be replayed. -/
def World.Misses (w : World K N V σ B) (c : CacheId) (k : K) : Prop :=
  ∃ cache, w.cache? c = some cache ∧ cache.Reads k none

omit [DecidableEq N] [BEq V] in
/-- A key that has to be derived lies in the namespace. -/
theorem World.Misses.owns {w : World K N V σ B} (h : w.Misses c k) : w.Owns c k := by
  obtain ⟨cache, hcache, hreads⟩ := h
  cases hreads with
  | missed owns unpublished unreplayable builder => exact ⟨cache, hcache, owns⟩

omit [DecidableEq N] [BEq V] in
/-- A key that has to be derived has no failure to be replayed. -/
theorem World.Misses.unreplayable {w : World K N V σ B} (h : w.Misses c k) :
    w.replayable c k = none := by
  obtain ⟨cache, hcache, hreads⟩ := h
  cases hreads with
  | missed owns unpublished unreplayable builder =>
      rw [replayable, hcache, Option.bind_some, unreplayable]

namespace Machine

/-- A routine begins to derive a key that it has missed. -/
theorem misses_of_get {l : K} {d : CacheId} {next : Except RequestError V → Body K N V σ B}
    (hfocus : m.focus = .run (.get d l next)) (h : m.step body = some m') {p : Pass K}
    {receiver : Receiver K N V σ B} (hattempt : m'.focus = .attempt p receiver) :
    m.world.Misses d l := by
  cases hcache : m.world.cache? d with
  | none => simp [step, hfocus, stepRun, World.onCache, hcache] at h
  | some cache =>
      rw [step_get hcache hfocus] at h
      have hreads := (cache.request_reads l).1
      cases hanswer : (cache.request l).1 with
      | none =>
          rw [hanswer] at hreads
          exact ⟨cache, hcache, hreads⟩
      | some r =>
          simp only [hanswer] at h
          obtain rfl := Option.some.inj h
          simp [move] at hattempt

/-- Of the threads that request a key at once, those wait that have missed it. -/
theorem race_inv {l : K} {d : CacheId} {n : Nat} {next : List (Outcome V) → Body K N V σ B}
    (hfocus : m.focus = .run (.race d l n next)) (h : m.step body = some m') :
    ∃ waiting outcomes, m'.focus = .wake d l waiting outcomes next ∧ m'.stack = m.stack ∧
      waiting.length ≤ n ∧ (waiting ≠ [] → m.world.Misses d l) := by
  simp only [step, hfocus, stepRun, World.onCache, bind, Option.bind_eq_some_iff,
    Option.map_eq_some_iff] at h
  obtain ⟨⟨⟨outcomes, waiting⟩, w⟩, ⟨cache, hcache, hrequest⟩, h⟩ := h
  obtain ⟨-, hsub, hmissed, -⟩ := requestAll_posts l
    ((List.range n).map fun i => (⟨m.world.threads + i⟩ : ThreadId)) cache
  obtain rfl := Option.some.inj h
  rw [(Prod.mk.inj hrequest).1] at hsub hmissed
  have hlength := hsub.length_le
  rw [List.length_map, List.length_range] at hlength
  exact ⟨waiting, outcomes, rfl, rfl, hlength, fun hwaiting => ⟨cache, hcache, hmissed hwaiting⟩⟩

/-- Threads wait for a key that they have missed. -/
theorem misses_of_race {l : K} {d : CacheId} {n : Nat}
    {next : List (Outcome V) → Body K N V σ B} (hfocus : m.focus = .run (.race d l n next))
    (h : m.step body = some m') (hawaits : m'.focus.Awaits c k) : m.world.Misses c k := by
  obtain ⟨waiting, outcomes, hwake, -, -, hmisses⟩ := race_inv hfocus h
  rw [hwake] at hawaits
  obtain ⟨rfl, rfl, hwaiting⟩ := hawaits
  exact hmisses hwaiting

/-- A key that is sought was sought before, or has just been missed. -/
theorem seeks_source (h : m.step body = some m') (hs : m'.Seeks c k) :
    m.Seeks c k ∨ m.world.Misses c k := by
  -- Steps that add no pass can only bring up a key for which threads begin to wait.
  have hkept (hpasses : m'.passes ⊆ m.passes)
      (hawaits : m'.focus.Awaits c k → m.Seeks c k ∨ m.world.Misses c k) :
      m.Seeks c k ∨ m.world.Misses c k := by
    rcases hs with ⟨p, hp, hck⟩ | hs
    · exact Or.inl (Or.inl ⟨p, hpasses hp, hck⟩)
    · exact hawaits hs
  have hsame (hpasses : m'.passes = m.passes) (hquiet : ¬ m'.focus.Awaits c k) :
      m.Seeks c k ∨ m.world.Misses c k :=
    hkept (fun p hp => hpasses ▸ hp) fun h => absurd h hquiet
  have hended (p : Pass K) (hpasses : m.passes = p :: m'.passes)
      (hawaits : m'.focus.Awaits c k → p.cache = c ∧ p.key = k) :
      m.Seeks c k ∨ m.world.Misses c k :=
    hkept (hpasses ▸ List.subset_cons_self ..) fun hs =>
      Or.inl (Or.inl ⟨p, hpasses ▸ List.mem_cons_self .., hawaits hs⟩)
  cases Transition.of_step h with
  | returnError e => exact hsame rfl id
  | returnRefused e => exact hsame rfl id
  | returnRecorded recorded => exact hsame rfl id
  | unwindRoutine message => exact hsame rfl id
  | unwindPass message idles => exact hended _ rfl fun hs => ⟨hs.1, hs.2.1⟩
  | perform r next answered => exact hsame rfl id
  | build => exact hsame rfl id
  | get idles reached =>
      cases reached with
      | outcome r stored => exact hsame rfl fun hs => hs.2.2 rfl
      | claimed thread =>
          have hmisses := Machine.misses_of_get rfl h rfl
          rcases hs with ⟨p, hp, rfl, rfl⟩ | hs
          · rcases List.mem_cons.1 hp with rfl | hp
            · exact Or.inr hmisses
            · exact Or.inl (Or.inl ⟨p, hp, rfl, rfl⟩)
          · exact absurd hs id
  | race idles stored => exact hkept (List.Subset.refl _) fun hs => Or.inr (misses_of_race rfl h hs)
  | askAnswered answered => exact hsame rfl id
  | askBuild b missed => exact hsame rfl id
  | replyRoutine => exact hsame rfl id
  | passFailed e idles => exact hended _ rfl fun hs => ⟨hs.1, hs.2.1⟩
  | committed commit idles => exact hended _ rfl fun hs => ⟨hs.1, hs.2.1⟩
  | conflictSettled commit stored idles => exact hended _ rfl fun hs => ⟨hs.1, hs.2.1⟩
  | conflictRetried commit => exact hsame rfl id
  | exhausted e idles => exact hended _ rfl fun hs => ⟨hs.1, hs.2.1⟩
  | attempt left idles created =>
      rcases hs with ⟨p, hp, rfl, rfl⟩ | hs
      · rcases List.mem_cons.1 hp with rfl | hp
        · exact Or.inl (Or.inl ⟨_, List.mem_cons_self .., rfl, rfl⟩)
        · exact Or.inl (Or.inl ⟨p, List.mem_cons_of_mem _ hp, rfl, rfl⟩)
      · exact absurd hs id
  | deliverReturned r => exact hsame rfl id
  | deliverPanicked message => exact hsame rfl id
  | deliverCrowd => exact hkept (List.Subset.refl _) fun hs => Or.inl (Or.inr hs)
  | wakeDone => exact hsame rfl id
  | wakeNext idles reached =>
      cases reached with
      | outcome r stored =>
          exact hkept (List.Subset.refl _) fun hs => Or.inl (Or.inr ⟨hs.1, hs.2.1, by simp⟩)
      | claimed thread =>
          rcases hs with ⟨p, hp, hc, hk⟩ | hs
          · rcases List.mem_cons.1 hp with rfl | hp
            · exact Or.inl (Or.inr ⟨hc, hk, by simp⟩)
            · exact Or.inl (Or.inl ⟨p, hp, hc, hk⟩)
          · exact absurd hs id

end Machine

end Steps

/-- A cache that remembers failures goes on to do so. -/
theorem World.Grows.remembers {w w' : World K N V σ B} (h : w.Grows w') {c : CacheId}
    (hc : w.Caches c) : w'.Caches c := by
  obtain ⟨cache, hcache, hcaches⟩ := hc
  obtain ⟨cache', hcache', hconfig⟩ := h.caches c cache hcache
  exact ⟨cache', hcache', by rw [hconfig, hcaches]⟩

/-! ### Ensembles -/

/-- What a machine is besides the world. -/
structure Task (K N V σ B : Type) where
  focus : Focus K N V σ B
  /-- The builder calls in progress, innermost first, on top of the frames that the machine began
  with. -/
  stack : List (Frame K N V σ B) := []

/-- Any number of machines in one world, one of which has its turn. -/
structure Ensemble (ι K N V σ B : Type) where
  world : World K N V σ B
  task : ι → Task K N V σ B
  turn : ι

/-- Nothing is being derived: a routine runs, on frames of routines. -/
def Task.Idle (t : Task K N V σ B) : Prop :=
  (∃ routine, t.focus = .run routine) ∧ t.stack.flatMap (·.asker.passes) = []

omit [DecidableEq K] in
/-- Whoever waits for a builder call in it is a routine. -/
theorem Task.Idle.asker {t : Task K N V σ B} (h : t.Idle) {frame : Frame K N V σ B}
    (hframe : frame ∈ t.stack) : ∃ next, frame.asker = .routine next := by
  have hpasses := List.flatMap_eq_nil_iff.1 h.2 frame hframe
  cases hasker : frame.asker with
  | routine next => exact ⟨next, rfl⟩
  | pass p receiver => simp [hasker, Asker.passes] at hpasses

omit [DecidableEq K] in
/-- No pass is going on in it. -/
theorem Task.Idle.passes_eq_nil {t : Task K N V σ B} (h : t.Idle) (w : World K N V σ B) :
    (⟨w, t.focus, t.stack⟩ : Machine K N V σ B).passes = [] := by
  obtain ⟨⟨routine, hfocus⟩, hstack⟩ := h
  rw [Machine.passes, hfocus, hstack]
  rfl

omit [DecidableEq K] in
/-- It seeks no key. -/
theorem Task.Idle.not_seeks {t : Task K N V σ B} (h : t.Idle) (w : World K N V σ B) (c : CacheId)
    (k : K) : ¬ (⟨w, t.focus, t.stack⟩ : Machine K N V σ B).Seeks c k := by
  rintro (⟨p, hp, -⟩ | hawaits)
  · simp [h.passes_eq_nil] at hp
  · obtain ⟨⟨routine, hfocus⟩, -⟩ := h
    simp [hfocus, Focus.Awaits] at hawaits

namespace Ensemble

/-- One of the machines, in the world that they have in common. -/
def machine (s : Ensemble ι K N V σ B) (i : ι) : Machine K N V σ B :=
  ⟨s.world, (s.task i).focus, (s.task i).stack⟩

/-- The machine that has its turn. -/
def current (s : Ensemble ι K N V σ B) : Machine K N V σ B := s.machine s.turn

/-- The ensemble after the machine whose turn it was has become this one. -/
def advance [DecidableEq ι] (s : Ensemble ι K N V σ B) (m : Machine K N V σ B) (turn : ι) :
    Ensemble ι K N V σ B where
  world := m.world
  task := Function.update s.task s.turn ⟨m.focus, m.stack⟩
  turn := turn

/-- Every machine is about to do a routine, in a world without anything in it. -/
def Starts (s : Ensemble ι K N V σ B) : Prop :=
  (∃ client, s.world = { client }) ∧ ∀ i, (s.task i).Idle

variable [DecidableEq ι] [DecidableEq N] [BEq V] [ToString K]

/-- The machine that has its turn makes a step, or is given something else to do when it has ended.
Any machine has the next turn. -/
inductive Next (body : B → ContextId → K → Body K N V σ B) :
    Ensemble ι K N V σ B → Ensemble ι K N V σ B → Prop
  | step {s m'} (made : s.current.step body = some m') (turn : ι) : Next body s (s.advance m' turn)
  | line {s} (ended : s.current.step body = none) (idle : (s.task s.turn).Idle)
      (task : Task K N V σ B) (fresh : task.Idle) (client : σ) (turn : ι) :
      Next body s (s.advance ⟨{ s.world with client }, task.focus, task.stack⟩ turn)

/-- The step from the first ensemble to the second one ends a request. -/
def Ends (s s' : Ensemble ι K N V σ B) (c : CacheId) (k : K) (outcome : Outcome V) : Prop :=
  s.current.Ends (s'.machine s.turn) c k outcome

section Advance

variable (s : Ensemble ι K N V σ B) (m : Machine K N V σ B) (turn : ι)

omit [DecidableEq K] [DecidableEq N] [BEq V] [ToString K]

@[simp] theorem advance_world : (s.advance m turn).world = m.world := rfl

/-- The machine that had its turn has become the one that was put in its place. -/
theorem machine_advance_self : (s.advance m turn).machine s.turn = m := by
  simp [machine, advance]

/-- The other machines stay as they are, but for the world. -/
theorem machine_advance_of_ne {i : ι} (hi : i ≠ s.turn) :
    (s.advance m turn).machine i = { s.machine i with world := m.world } := by
  simp [machine, advance, hi]

/-- The claims of the other machines stay as they are. -/
theorem held_advance :
    (fun i => ((s.advance m turn).machine i).held) =
      Function.update (fun i => (s.machine i).held) s.turn m.held := by
  funext i
  by_cases hi : i = s.turn
  · subst hi
    rw [machine_advance_self, Function.update_self]
  · rw [machine_advance_of_ne s m turn hi, Function.update_of_ne hi]
    rfl

end Advance

section Seeking

variable {s : Ensemble ι K N V σ B} {turn i : ι} {c : CacheId} {k : K}

/-- A key that is sought after a step was sought before it, or has been missed by it. -/
theorem seeks_of_step {body : B → ContextId → K → Body K N V σ B} {m : Machine K N V σ B}
    (made : s.current.step body = some m) (h : ((s.advance m turn).machine i).Seeks c k) :
    (s.machine i).Seeks c k ∨ s.world.Misses c k := by
  by_cases hi : i = s.turn
  · subst hi
    rw [machine_advance_self] at h
    exact Machine.seeks_source made h
  · rw [machine_advance_of_ne s m turn hi] at h
    exact Or.inl h

omit [DecidableEq K] [DecidableEq N] [BEq V] [ToString K] in
/-- A machine that is given something else to do seeks nothing yet. -/
theorem seeks_of_line {task : Task K N V σ B} (fresh : task.Idle) {w : World K N V σ B}
    (h : ((s.advance ⟨w, task.focus, task.stack⟩ turn).machine i).Seeks c k) :
    (s.machine i).Seeks c k := by
  by_cases hi : i = s.turn
  · subst hi
    rw [machine_advance_self] at h
    exact absurd h (fresh.not_seeks w c k)
  · rw [machine_advance_of_ne _ _ _ hi] at h
    exact h

end Seeking

/-! ### What holds in every state -/

/-- Claims are on record. Keys that are sought, and keys whose failure is remembered, lie in the
namespace. Failures are remembered in caches that remember failures, and not for a key that is being
derived. -/
structure Sound (s : Ensemble ι K N V σ B) : Prop where
  mirrors : s.world.Mirrors fun i => (s.machine i).held
  sought : ∀ i c k, (s.machine i).Seeks c k → s.world.Owns c k
  memo : ∀ c k f, s.world.remembered c k = some f →
    s.world.Caches c ∧ s.world.Owns c k ∧ s.world.holder c k = none

namespace Sound

variable {s s' : Ensemble ι K N V σ B} {body : B → ContextId → K → Body K N V σ B}

omit [DecidableEq ι] [DecidableEq N] [BEq V] [ToString K] in
/-- Before anything has happened there is nothing to keep account of. -/
theorem of_starts (h : s.Starts) : s.Sound := by
  obtain ⟨⟨client, hworld⟩, hidle⟩ := h
  have hheld (i : ι) : (s.machine i).held = [] := by
    rw [Machine.held, machine, (hidle i).passes_eq_nil]
    rfl
  refine ⟨⟨fun c k t => ?_, fun i => ?_, fun h => ?_⟩, fun i c k hseeks => ?_, fun c k f hf => ?_⟩
  · simp [hworld, World.holder, World.account, World.cache?, hheld]
  · simp [hheld]
  · simp [hheld] at h
  · exact absurd hseeks ((hidle i).not_seeks s.world c k)
  · simp [hworld, World.remembered, World.cache?] at hf

variable {m' : Machine K N V σ B}

omit [DecidableEq ι] in
/-- A failure that can be replayed is not one of a key that is claimed. -/
theorem memo_step (hs : s.Sound) (made : s.current.step body = some m') {c : CacheId} {k : K}
    {f : Failure} (hf : m'.world.remembered c k = some f) :
    m'.world.Caches c ∧ m'.world.Owns c k ∧ m'.world.holder c k = none := by
  have hgrows := (Transition.of_step made).obeys.grows
  have hposting := Posting.of_step made
  rcases hposting.remembered_source hf with hold | ⟨hfails, hcaches, -⟩
  · obtain ⟨hcaches, howns, hfree⟩ := hs.memo c k f hold
    refine ⟨hgrows.remembers hcaches, hgrows.owns howns, ?_⟩
    have hreplayable : s.current.world.replayable c k = some f :=
      World.replayable_eq_some_iff.2 ⟨hcaches, hold⟩
    rcases hposting.claims with ⟨-, hholder, -⟩ |
      ⟨d, l, t, receiver, -, -, -, hunreplayable, -, -, hholder⟩ | ⟨p, r, receiver, -, -, hholder⟩
    · rw [hholder]
      exact hfree
    · rw [hholder, if_neg]
      · exact hfree
      · rintro ⟨rfl, rfl⟩
        simp [hreplayable] at hunreplayable
    · rw [hholder]
      split
      · rfl
      · exact hfree
  · have hfree := (Posting.of_fails hfails made).2.2.1
    obtain ⟨x, l, p, receiver, hreply, rfl, rfl⟩ := hfails
    have hpass : p ∈ s.current.passes := by
      rw [Machine.passes, hreply]
      exact List.mem_cons_self ..
    have howns : s.world.Owns p.cache p.key :=
      hs.sought s.turn p.cache p.key (Or.inl ⟨p, hpass, rfl, rfl⟩)
    exact ⟨hgrows.remembers hcaches, hgrows.owns howns, hfree⟩

/-- The machine that has its turn makes a step. -/
theorem step (hs : s.Sound) (made : s.current.step body = some m') (turn : ι) :
    (s.advance m' turn).Sound where
  mirrors := by
    rw [held_advance]
    exact hs.mirrors.posting (Posting.of_step made) rfl
  sought i c k hseeks := by
    have hgrows := (Transition.of_step made).obeys.grows
    rcases seeks_of_step made hseeks with hold | hmisses
    · exact hgrows.owns (hs.sought i c k hold)
    · exact hgrows.owns hmisses.owns
  memo c k f hf := hs.memo_step made hf

omit [DecidableEq N] [BEq V] [ToString K] in
/-- A machine that has ended is given something else to do. -/
theorem line (hs : s.Sound) (idle : (s.task s.turn).Idle) {task : Task K N V σ B}
    (fresh : task.Idle) (client : σ) (turn : ι) :
    (s.advance ⟨{ s.world with client }, task.focus, task.stack⟩ turn).Sound where
  mirrors := by
    have hheld (t : Task K N V σ B) (ht : t.Idle) (w : World K N V σ B) :
        (⟨w, t.focus, t.stack⟩ : Machine K N V σ B).held = [] := by
      rw [Machine.held, ht.passes_eq_nil]
      rfl
    have hsame : Function.update (fun i => (s.machine i).held) s.turn [] =
        fun i => (s.machine i).held := by
      rw [← hheld _ idle s.world]
      exact Function.update_eq_self s.turn fun i => (s.machine i).held
    rw [held_advance, hheld _ fresh, hsame]
    exact ⟨hs.mirrors.holder, hs.mirrors.once, hs.mirrors.apart⟩
  sought i c k hseeks := hs.sought i c k (seeks_of_line fresh hseeks)
  memo c k f hf := hs.memo c k f hf

/-- Every ensemble that is reached is sound. -/
theorem next (hs : s.Sound) (h : Next body s s') : s'.Sound := by
  cases h with
  | step made turn => exact hs.step made turn
  | line ended idle task fresh client turn => exact hs.line idle fresh client turn

end Sound

/-! ### Running an ensemble -/

variable (body : B → ContextId → K → Body K N V σ B)

/-- The ensemble after this many steps, if the machines have their turns in this order
afterwards. -/
def run : Nat → (Nat → ι) → Ensemble ι K N V σ B → Ensemble ι K N V σ B
  | 0, _, s => s
  | n + 1, turns, s =>
    match s.current.step body with
    | none => s
    | some m => run n (fun i => turns (i + 1)) (s.advance m (turns 0))

variable {body}

/-- A run is one step longer if its last state can make a step. -/
theorem run_succ_of_step {n : Nat} {turns : Nat → ι} {s : Ensemble ι K N V σ B}
    {m : Machine K N V σ B} (h : (run body n turns s).current.step body = some m) :
    run body (n + 1) turns s = (run body n turns s).advance m (turns n) := by
  induction n generalizing turns s with
  | zero =>
      have hfirst : s.current.step body = some m := h
      simp [run, hfirst]
  | succ n ih =>
      cases hfirst : s.current.step body with
      | none => simp [run, hfirst] at h
      | some m₁ =>
          rw [run] at h ⊢
          simp only [hfirst] at h ⊢
          rw [ih h]
          conv_rhs => rw [run]
          simp only [hfirst]

/-- Whether this many steps can be made, each from a state that passes a check. -/
def runs (body : B → ContextId → K → Body K N V σ B) (check : Ensemble ι K N V σ B → Bool) :
    Nat → (Nat → ι) → Ensemble ι K N V σ B → Bool
  | 0, _, _ => true
  | n + 1, turns, s => check s && (s.current.step body).any fun m =>
    runs body check n (fun i => turns (i + 1)) (s.advance m (turns 0))

/-- What was checked for a whole run is true of each of its states. -/
theorem of_runs {check : Ensemble ι K N V σ B → Bool} {n : Nat} {turns : Nat → ι}
    {s : Ensemble ι K N V σ B} (h : runs body check n turns s = true) :
    ∀ i < n, check (run body i turns s) = true ∧
      ((run body i turns s).current.step body).isSome = true := by
  induction n generalizing turns s with
  | zero => exact fun i hi => absurd hi (Nat.not_lt_zero i)
  | succ n ih =>
      rw [runs, Bool.and_eq_true, Option.any_eq_true] at h
      obtain ⟨hcheck, m, hm, hrest⟩ := h
      rintro (_ | i) hi
      · exact ⟨hcheck, by rw [run, hm]; rfl⟩
      · rw [run, hm]
        exact ih hrest i (Nat.lt_of_succ_lt_succ hi)

/-- The states that an ensemble goes through. -/
def runExecution (s : Ensemble ι K N V σ B) (turns : Nat → ι) (length : Nat) (starts : s.Starts)
    (runs : ∀ i < length, ((run body i turns s).current.step body).isSome = true) :
    Execution (Ensemble.Starts (ι := ι)) (Next body) where
  length
  state i := run body i turns s
  starts
  goes i hi := by
    obtain ⟨m, hm⟩ := Option.isSome_iff_exists.1 (runs i hi)
    rw [run_succ_of_step hm]
    exact .step hm _

end Ensemble

end DerivationCache
