import DerivationCache.Proofs.InFlight
import DerivationCache.Proofs.KeyCourse

/-!
# The passes of a request

A request that has claimed its key starts a pass, and another one as long as it loses: the commit
is turned down, and its key is not published by then. It starts four passes at most, each in a fresh
context with a builder of its own. What the builders do meanwhile is not looked at: a pass goes on
as long as the frame of its builder call is on the stack (`Query.InPass`).

Other machines may work on the same world at any time, as long as they leave alone the contexts of
the calls in progress (`Machine.Advances`).

## Main results

* `Query.Asks.step`, `Query.Attempts.step`, `Query.InPass.step`: what a request does step by step.
* `Progress.advance`: what a request has gone through so far, up to any moment of a run.
* `Course.of_delivers`: the passes of a request that has its outcome.
-/

namespace DerivationCache

variable {K N V σ B : Type}

/-! ### Requests -/

/-- A request for a derived value, made by the routine on top of a stack, or in its name. -/
structure Query (K N V σ B : Type) where
  cache : CacheId
  key : K
  thread : ThreadId
  receiver : Receiver K N V σ B
  stack : List (Frame K N V σ B)

namespace Machine.AsksFor

variable {m : Machine K N V σ B} {c : CacheId} {k : K} {thread : ThreadId}
  {receiver : Receiver K N V σ B}

/-- What goes on in the world does not matter for what is asked for. -/
theorem congr (h : m.AsksFor c k thread receiver) (w : World K N V σ B) :
    ({ m with world := w } : Machine K N V σ B).AsksFor c k thread receiver := by
  cases h with
  | get next hfocus => exact .get (m := { m with world := w }) next hfocus
  | wake thread waiting outcomes next hfocus =>
      exact .wake (m := { m with world := w }) thread waiting outcomes next hfocus

/-- A request that is made now has no outcome yet. -/
theorem not_deliver (h : m.AsksFor c k thread receiver) (d : CacheId) (l : K) (r : Outcome V)
    (receiver' : Receiver K N V σ B) : m.focus ≠ .deliver d l r receiver' := by
  cases h with
  | get next hfocus => simp [hfocus]
  | wake thread waiting outcomes next hfocus => simp [hfocus]

end Machine.AsksFor

namespace Query

/-- A pass of the request, with so many more that may be started. -/
def pass (q : Query K N V σ B) (left : Nat) : Pass K := ⟨q.cache, q.key, q.thread, left⟩

/-- The request is made now. -/
def Asks (q : Query K N V σ B) (m : Machine K N V σ B) : Prop :=
  m.stack = q.stack ∧ m.AsksFor q.cache q.key q.thread q.receiver

/-- The request starts its next pass, if so many more that may be started are not none. -/
def Attempts (q : Query K N V σ B) (left : Nat) (m : Machine K N V σ B) : Prop :=
  m.stack = q.stack ∧ m.focus = .attempt (q.pass left) q.receiver

/-- The request has its outcome. -/
def Delivers (q : Query K N V σ B) (outcome : Outcome V) (m : Machine K N V σ B) : Prop :=
  m.stack = q.stack ∧ m.focus = .deliver q.cache q.key outcome q.receiver

/-- The pass of the request has this answer. -/
def Answered (q : Query K N V σ B) (left : Nat) (x : ContextId)
    (answer : Except RequestError (Option V)) (m : Machine K N V σ B) : Prop :=
  m.stack = q.stack ∧ m.focus = .reply x q.key answer (.pass (q.pass left) q.receiver)

/-- The builder call of a pass of the request. -/
def frame (q : Query K N V σ B) (left : Nat) (x : ContextId) (thread : ThreadId) :
    Frame K N V σ B :=
  ⟨x, q.key, thread, .pass (q.pass left) q.receiver⟩

/-- A pass of the request goes on: its key is requested, its builder call is in progress, or it has
an answer. -/
inductive InPass (q : Query K N V σ B) (left : Nat) (x : ContextId) : Machine K N V σ B → Prop
  | asks {w : World K N V σ B} :
      InPass q left x ⟨w, .ask x q.key (.pass (q.pass left) q.receiver), q.stack⟩
  | builds {w : World K N V σ B} {focus : Focus K N V σ B} (above : List (Frame K N V σ B))
      (thread : ThreadId) : InPass q left x ⟨w, focus, above ++ q.frame left x thread :: q.stack⟩
  | answered {w : World K N V σ B} (answer : Except RequestError (Option V)) :
      InPass q left x ⟨w, .reply x q.key answer (.pass (q.pass left) q.receiver), q.stack⟩

variable {q : Query K N V σ B} {left : Nat} {x : ContextId} {m : Machine K N V σ B}

/-- What goes on in the world does not matter for what the machine does. -/
theorem Asks.congr (h : q.Asks m) (w : World K N V σ B) : q.Asks { m with world := w } :=
  ⟨h.1, h.2.congr w⟩

/-- What goes on in the world does not matter for the pass either. -/
theorem InPass.congr (h : q.InPass left x m) (w : World K N V σ B) :
    q.InPass left x { m with world := w } := by
  cases h with
  | asks => exact .asks
  | builds above thread => exact .builds above thread
  | answered answer => exact .answered answer

/-- The context of a pass is held as long as the pass goes on. -/
theorem InPass.holds (h : q.InPass left x m) : m.Holds x := by
  cases h with
  | asks => exact Or.inr rfl
  | builds above thread => exact Or.inl ⟨_, List.mem_append_right _ (List.mem_cons_self ..), rfl⟩
  | answered answer => exact Or.inr rfl

/-- As long as a pass goes on, the request starts no other one. -/
theorem InPass.not_attempts (h : q.InPass left x m) (n : Nat) : ¬ q.Attempts n m := by
  rintro ⟨hstack, hfocus⟩
  cases h with
  | asks => simp at hfocus
  | builds above thread =>
      have hlength := congrArg List.length hstack
      simp at hlength
      omega
  | answered answer => simp at hfocus

/-- As long as a pass goes on, the request has no outcome. -/
theorem InPass.not_delivers (h : q.InPass left x m) (outcome : Outcome V) :
    ¬ q.Delivers outcome m := by
  rintro ⟨hstack, hfocus⟩
  cases h with
  | asks => simp at hfocus
  | builds above thread =>
      have hlength := congrArg List.length hstack
      simp at hlength
      omega
  | answered answer => simp at hfocus

/-- While a routine runs in a pass, the builder call of the pass is in progress. -/
theorem InPass.stack_of_run (h : q.InPass left x m) {b : Body K N V σ B}
    (hfocus : m.focus = .run b) :
    ∃ above thread, m.stack = above ++ q.frame left x thread :: q.stack := by
  cases h with
  | asks => simp at hfocus
  | builds above thread => exact ⟨above, thread, rfl⟩
  | answered answer => simp at hfocus

/-- A request that is made now has started no pass. -/
theorem Asks.not_attempts (h : q.Asks m) (n : Nat) : ¬ q.Attempts n m := by
  rintro ⟨-, hfocus⟩
  have hnone := h.2.passes_eq_nil
  simp [hfocus, Focus.passes] at hnone

/-- A request that is made now has no outcome. -/
theorem Asks.not_delivers (h : q.Asks m) (outcome : Outcome V) : ¬ q.Delivers outcome m := by
  rintro ⟨-, hfocus⟩
  exact h.2.not_deliver _ _ _ _ hfocus

/-- Nor has one that is about to start a pass. -/
theorem Attempts.not_delivers (h : q.Attempts left m) (outcome : Outcome V) :
    ¬ q.Delivers outcome m := by
  rintro ⟨-, hfocus⟩
  rw [h.2] at hfocus
  simp at hfocus

end Query

/-! ### What a request does step by step -/

section Steps

variable [DecidableEq K] [BEq V] [ToString K]

/-- What the answer of a pass comes to when the request is not tried again. -/
inductive Query.Settles (q : Query K N V σ B) (w : World K N V σ B) (x : ContextId) :
    Except RequestError (Option V) → Outcome V → Prop
  | failed (e : RequestError) : Settles q w x (.error e) (.returned (.error e))
  | missing : Settles q w x (.ok none)
      (.returned (.error (.violation (.readOnlyCache (toString q.key)))))
  | refused (v : V) (e : Violation) (commit : w.commit x = some (.error e, w)) :
      Settles q w x (.ok (some v)) (.returned (.error (.violation e)))
  | committed {w' : World K N V σ B} (v : V) (commit : w.commit x = some (.ok true, w')) :
      Settles q w x (.ok (some v)) (.returned (.ok v))
  | settled {w' : World K N V σ B} (v u : V) (commit : w.commit x = some (.ok false, w'))
      (stored : w'.stored q.cache q.key = some u) :
      Settles q w x (.ok (some v)) (.returned (.ok u))

/-- The commit of a pass is turned down, and its key is not published by then. -/
def Query.Loses (q : Query K N V σ B) (x : ContextId) (m : Machine K N V σ B) : Prop :=
  ∃ left v w, q.Answered left x (.ok (some v)) m ∧ m.world.commit x = some (.ok false, w) ∧
    w.stored q.cache q.key = none

/-- The step from the first machine to the second one is the end of a pass. -/
inductive Query.Finishes (q : Query K N V σ B) (left : Nat) (x : ContextId)
    (m m' : Machine K N V σ B) : Prop
  | panicked (message : String) (focus : m.focus = .run (.panic message))
      (delivers : q.Delivers (.panicked message) m')
  | settled (answer : Except RequestError (Option V)) (outcome : Outcome V)
      (answered : q.Answered left x answer m) (settles : q.Settles m.world x answer outcome)
      (delivers : q.Delivers outcome m')
  | lost (loses : q.Loses x m) (attempts : q.Attempts left m')

/-- A pass starts: a fresh context of the cache is made, with a builder that the cache's
configuration makes for it. -/
structure Query.Opens (q : Query K N V σ B) (left : Nat) (x : ContextId)
    (m m' : Machine K N V σ B) : Prop where
  attempts : q.Attempts (left + 1) m
  asks : m'.stack = q.stack ∧ m'.focus = .ask x q.key (.pass (q.pass left) q.receiver)
  unmade : m.world.context? x = none
  fresh : ∃ cache, m.world.cache? q.cache = some cache ∧
    m'.world.context? x = some
      { parent := some q.cache
        builder := cache.config.makeBuilder.map fun make => (make m.world.client).1
        placeholders := cache.config.placeholders } ∧
    ∀ make, cache.config.makeBuilder = some make → m'.world.client = (make m.world.client).2

omit [DecidableEq K] [BEq V] [ToString K] in
/-- The pass that has just been opened goes on. -/
theorem Query.Opens.inPass {q : Query K N V σ B} {left : Nat} {x : ContextId}
    {m m' : Machine K N V σ B} (h : q.Opens left x m m') : q.InPass left x m' := by
  obtain ⟨hstack, hfocus⟩ := h.asks
  obtain ⟨w, focus, stack⟩ := m'
  obtain rfl : stack = q.stack := hstack
  obtain rfl : focus = _ := hfocus
  exact .asks

omit [DecidableEq K] [BEq V] [ToString K] in
/-- A context that is made for a cache, and what is left of the state that builders are made of. -/
theorem World.createContext_fresh {w w' : World K N V σ B} {c : CacheId} {x : ContextId}
    (h : w.createContext c = some (x, w')) :
    ∃ cache, w.cache? c = some cache ∧ w.context? x = none ∧
      w'.context? x = some
        { parent := some c
          builder := cache.config.makeBuilder.map fun make => (make w.client).1
          placeholders := cache.config.placeholders } ∧
      ∀ make, cache.config.makeBuilder = some make → w'.client = (make w.client).2 := by
  rw [createContext, Option.map_eq_some_iff] at h
  obtain ⟨cache, hcache, h⟩ := h
  have hunmade : w.context? ⟨w.contexts.size⟩ = none := by simp [context?]
  cases hmake : cache.config.makeBuilder with
  | none =>
      rw [hmake] at h
      obtain ⟨rfl, rfl⟩ := Prod.mk.inj h
      refine ⟨cache, hcache, hunmade, ?_, fun make h => by simp [hmake] at h⟩
      exact (context?_newContext _ _ _).trans (by simp [newContext, hmake])
  | some make =>
      rw [hmake] at h
      obtain ⟨rfl, rfl⟩ := Prod.mk.inj h
      refine ⟨cache, hcache, hunmade, ?_, fun make' h => ?_⟩
      · exact (context?_newContext _ _ _).trans (by simp [newContext, hmake])
      · obtain rfl := Option.some.inj (hmake.symm.trans h)
        rfl

omit [BEq V] [ToString K] in
/-- A request that is answered at once is not answered with a conflict. -/
theorem World.Answers.not_conflict {w : World K N V σ B} {c : CacheId} {k : K} {r : Outcome V}
    (h : w.Answers c k r) (text : String) : r ≠ .returned (.error (.conflict text)) := by
  cases h <;> simp

namespace Query

variable [DecidableEq N] {body : B → ContextId → K → Body K N V σ B} {q : Query K N V σ B}
  {left : Nat} {x : ContextId} {m m' : Machine K N V σ B}

/-- A request is answered at once, and not with a conflict, or claims its key. -/
theorem Asks.step (h : q.Asks m) (made : m.step body = some m') :
    (∃ outcome, q.Delivers outcome m' ∧ ∀ text, outcome ≠ .returned (.error (.conflict text))) ∨
      q.Attempts passLimit m' := by
  have hclaim {n : Machine K N V σ B} (hmade : n.claim q.cache q.key q.thread q.receiver = some m')
      (hn : n.stack = q.stack) :
      (∃ outcome, q.Delivers outcome m' ∧
          ∀ text, outcome ≠ .returned (.error (.conflict text))) ∨ q.Attempts passLimit m' := by
    obtain ⟨hstack, ⟨r, hfocus, hanswers, -⟩ | ⟨hfocus, -⟩⟩ := Machine.claim_posts hmade
    · exact Or.inl ⟨r, ⟨hstack.trans hn, hfocus⟩, hanswers.not_conflict⟩
    · exact Or.inr ⟨hstack.trans hn, hfocus⟩
  obtain ⟨hstack, hasks⟩ := h
  obtain ⟨c, k, thread, receiver, stack⟩ := q
  cases hasks with
  | get next hfocus =>
      cases hcache : m.world.cache? c with
      | none => simp [Machine.step, hfocus, Machine.stepRun, World.onCache, hcache] at made
      | some cache =>
          rw [Machine.step_get hcache hfocus] at made
          obtain ⟨hreads, -⟩ := cache.request_reads k
          generalize (cache.request k).1 = answer at made hreads
          cases answer with
          | none => exact hclaim made hstack
          | some r =>
              obtain rfl := Option.some.inj made
              exact Or.inl ⟨_, ⟨hstack, rfl⟩,
                (World.Answers.of_reads hcache hreads).not_conflict⟩
  | wake _ waiting outcomes next hfocus =>
      rw [Machine.step, hfocus] at made
      exact hclaim made hstack

/-- A request that has used up its passes ends with a conflict. Otherwise a pass starts. -/
theorem Attempts.step (h : q.Attempts left m) (made : m.step body = some m') :
    (left = 0 ∧ q.Delivers (.returned (.error (.conflict (toString q.key)))) m') ∨
      ∃ n x, left = n + 1 ∧ q.Opens n x m m' := by
  obtain ⟨w, focus, stack⟩ := m
  obtain ⟨hstack, hfocus⟩ := h
  obtain rfl : stack = q.stack := hstack
  obtain rfl : focus = _ := hfocus
  rcases Machine.start_of_stepAttempt (p := q.pass left) made with ⟨hleft, made⟩ |
    ⟨n, cache, x, w', hleft, hcache, hcreate, rfl⟩
  · obtain ⟨w', -, rfl⟩ := Machine.settle_inv made
    exact Or.inl ⟨hleft, rfl, rfl⟩
  · obtain rfl : left = n + 1 := hleft
    obtain ⟨cache', hcache', hunmade, hfresh, hclient⟩ := World.createContext_fresh hcreate
    rw [World.cache?_setCache_self hcache] at hcache'
    obtain rfl := Option.some.inj hcache'
    exact Or.inr ⟨n, x, rfl, ⟨⟨rfl, rfl⟩, ⟨rfl, rfl⟩, hunmade, cache, hcache, hfresh, hclient⟩⟩

/-- The answer of a pass is the outcome of the request, or the pass is lost. -/
theorem Answered.step {answer : Except RequestError (Option V)} (h : q.Answered left x answer m)
    (made : m.step body = some m') : q.Finishes left x m m' := by
  obtain ⟨w, focus, stack⟩ := m
  have hanswered := h
  obtain ⟨hstack, hfocus⟩ := h
  obtain rfl : stack = q.stack := hstack
  obtain rfl : focus = _ := hfocus
  simp only [Machine.step, Machine.stepReply, bind] at made
  split at made
  · rename_i e
    simp only [World.onCache, Option.bind_eq_some_iff, Option.map_eq_some_iff] at made
    obtain ⟨-, ⟨cache, hcache, rfl⟩, made⟩ := made
    obtain ⟨w', -, rfl⟩ := Machine.settle_inv made
    exact .settled _ _ hanswered (.failed e) ⟨rfl, rfl⟩
  · obtain ⟨w', -, rfl⟩ := Machine.settle_inv made
    exact .settled _ _ hanswered .missing ⟨rfl, rfl⟩
  · rename_i v
    simp only [Option.bind_eq_some_iff] at made
    obtain ⟨⟨decided, w₁⟩, hcommit, made⟩ := made
    rcases decided with e | _ | _
    · obtain rfl := World.commit_error hcommit
      obtain ⟨w', -, rfl⟩ := Machine.settle_inv made
      exact .settled _ _ hanswered (.refused v e hcommit) ⟨rfl, rfl⟩
    · simp only [Option.bind_eq_some_iff] at made
      obtain ⟨cache, hcache, made⟩ := made
      have hstored : w₁.stored q.cache q.key = cache.store.get? q.key :=
        World.stored_of_cache? hcache _
      cases hpublished : cache.store.get? q.key with
      | some u =>
          simp only [pass, hpublished] at made
          obtain ⟨w', -, rfl⟩ := Machine.settle_inv made
          exact .settled _ _ hanswered (.settled v u hcommit (hstored.trans hpublished)) ⟨rfl, rfl⟩
      | none =>
          simp only [pass, hpublished] at made
          obtain rfl := Option.some.inj made
          exact .lost ⟨left, v, w₁, hanswered, hcommit, hstored.trans hpublished⟩ ⟨rfl, rfl⟩
    · obtain ⟨w', -, rfl⟩ := Machine.settle_inv made
      exact .settled _ _ hanswered (.committed v hcommit) ⟨rfl, rfl⟩

omit [DecidableEq K] [BEq V] [ToString K] [DecidableEq N] in
/-- The frame of a pass is the one on top, or stays when the one on top goes. -/
theorem frame_pops {frame : Frame K N V σ B} {rest above : List (Frame K N V σ B)}
    {thread : ThreadId} (h : frame :: rest = above ++ q.frame left x thread :: q.stack) :
    (frame = q.frame left x thread ∧ rest = q.stack) ∨
      ∃ above', rest = above' ++ q.frame left x thread :: q.stack := by
  cases above with
  | nil =>
      obtain ⟨rfl, rfl⟩ := List.cons.inj h
      exact Or.inl ⟨rfl, rfl⟩
  | cons top above =>
      obtain ⟨-, rfl⟩ := List.cons.inj h
      exact Or.inr ⟨above, rfl⟩

omit [DecidableEq K] [BEq V] [ToString K] [DecidableEq N] in
/-- The pass goes on as long as its builder call is on the stack. -/
theorem InPass.of_stack (above : List (Frame K N V σ B)) {thread : ThreadId}
    (h : m.stack = above ++ q.frame left x thread :: q.stack) : q.InPass left x m := by
  obtain ⟨w, focus, stack⟩ := m
  obtain rfl : stack = _ := h
  exact .builds above thread

/-- A step of a pass keeps the pass going, or is its end. -/
theorem InPass.step (h : q.InPass left x m) (made : m.step body = some m') :
    q.InPass left x m' ∨ q.Finishes left x m m' := by
  have htransition := Transition.of_step made
  cases h with
  | asks =>
      cases htransition with
      | askAnswered answered => exact Or.inl (.answered _)
      | askBuild b missed => exact Or.inl (.builds [] _)
  | answered answer => exact Or.inr (Answered.step ⟨rfl, rfl⟩ made)
  | @builds w focus above thread =>
      generalize hstack : above ++ q.frame left x thread :: q.stack = stack at htransition
      have hreturns {frame : Frame K N V σ B} {rest : List (Frame K N V σ B)}
          (hs : above ++ q.frame left x thread :: q.stack = frame :: rest) (w' : World K N V σ B)
          (answer : Except RequestError (Option V)) :
          q.InPass left x ⟨w', .reply frame.context frame.key answer frame.asker, rest⟩ := by
        rcases frame_pops hs.symm with ⟨rfl, rfl⟩ | ⟨above', rfl⟩
        · exact .answered answer
        · exact .builds above' thread
      cases htransition with
      | returnError e => exact Or.inl (hreturns hstack _ _)
      | returnRefused e => exact Or.inl (hreturns hstack _ _)
      | returnRecorded recorded => exact Or.inl (hreturns hstack _ _)
      | unwindRoutine message =>
          rcases frame_pops hstack.symm with ⟨hframe, -⟩ | ⟨above', rfl⟩
          · simp [frame] at hframe
          · exact Or.inl (.builds above' thread)
      | unwindPass message idles =>
          rcases frame_pops hstack.symm with ⟨hframe, rfl⟩ | ⟨above', rfl⟩
          · obtain ⟨-, -, -, hasker⟩ := Frame.mk.inj hframe
            obtain ⟨rfl, rfl⟩ := Asker.pass.inj hasker
            exact Or.inr (.panicked message rfl ⟨rfl, rfl⟩)
          · exact Or.inl (.builds above' thread)
      | @askBuild _ _ y k asker thread' _ b missed =>
          exact Or.inl (.of_stack (⟨y, k, thread', asker⟩ :: above)
            (congrArg (List.cons _) hstack.symm))
      | _ => exact Or.inl (.of_stack above hstack.symm)

omit [DecidableEq N] in
/-- A pass that ends is lost if and only if the request goes on. -/
theorem Finishes.loses_iff (h : q.Finishes left x m m') : q.Loses x m ↔ ∃ n, q.Attempts n m' := by
  constructor
  · rintro ⟨n, v, w, ⟨hstack, hfocus⟩, hcommit, hunpublished⟩
    cases h with
    | panicked message focus delivers => simp [hfocus] at focus
    | lost loses attempts => exact ⟨left, attempts⟩
    | settled answer outcome answered settles delivers =>
        obtain ⟨-, -, rfl, -⟩ := Focus.reply.inj (hfocus.symm.trans answered.2)
        cases settles with
        | refused _ e commit => simp [hcommit] at commit
        | committed _ commit => simp [hcommit] at commit
        | settled _ u commit stored =>
            obtain ⟨-, rfl⟩ := Prod.mk.inj (Option.some.inj (hcommit.symm.trans commit))
            simp [hunpublished] at stored
  · rintro ⟨n, hattempts⟩
    cases h with
    | panicked message focus delivers => exact absurd delivers (hattempts.not_delivers _)
    | settled answer outcome answered settles delivers =>
        exact absurd delivers (hattempts.not_delivers _)
    | lost loses attempts => exact loses

omit [DecidableEq N] in
/-- A pass that ends with a conflict has been answered with this conflict. -/
theorem Finishes.conflict_iff (h : q.Finishes left x m m') {outcome : Outcome V}
    (hdelivers : q.Delivers outcome m') (text : String) :
    outcome = .returned (.error (.conflict text)) ↔
      ∃ n, q.Answered n x (.error (.conflict text)) m := by
  have hsame {r : Outcome V} (hr : q.Delivers r m') : outcome = r :=
    (Focus.deliver.inj (hdelivers.2.symm.trans hr.2)).2.2.1
  cases h with
  | panicked message focus delivers =>
      rw [hsame delivers]
      simp [Answered, focus]
  | lost loses attempts => exact absurd hdelivers (attempts.not_delivers _)
  | settled answer r answered settles delivers =>
      rw [hsame delivers]
      have hanswer : (∃ n, q.Answered n x (.error (.conflict text)) m) ↔
          answer = .error (.conflict text) := by
        constructor
        · rintro ⟨n, h⟩
          exact (Focus.reply.inj (answered.2.symm.trans h.2)).2.2.1
        · rintro rfl
          exact ⟨left, answered⟩
      rw [hanswer]
      cases settles <;> simp

omit [DecidableEq N] in
/-- A pass that goes on has not ended. -/
theorem InPass.not_finishes {n : Nat} (h : q.InPass n x m') : ¬ q.Finishes left x m m' := by
  intro hfinishes
  cases hfinishes with
  | panicked message focus delivers => exact h.not_delivers _ delivers
  | settled answer outcome answered settles delivers => exact h.not_delivers _ delivers
  | lost loses attempts => exact h.not_attempts left attempts

/-- A pass is answered with a conflict by the return of its builder call. -/
theorem InPass.fails_of_answered (h : q.InPass left x m) (made : m.step body = some m') {n : Nat}
    {text : String} (answered : q.Answered n x (.error (.conflict text)) m') :
    m.focus = .run (.done (.error (.conflict text))) ∧
      ∃ thread, m.stack = q.frame left x thread :: q.stack := by
  obtain ⟨hstack, hfocus⟩ := answered
  cases Transition.of_step made with
  | @returnError w frame rest e =>
      obtain ⟨-, -, he, -⟩ := Focus.reply.inj hfocus
      obtain rfl := Except.error.inj he
      obtain rfl : rest = q.stack := hstack
      obtain ⟨above, thread, habove⟩ := h.stack_of_run rfl
      rcases frame_pops habove with ⟨rfl, -⟩ | ⟨above', hrest⟩
      · exact ⟨rfl, thread, rfl⟩
      · have hlength := congrArg List.length hrest
        simp at hlength
        omega
  | askAnswered hanswer =>
      obtain ⟨-, -, rfl, -⟩ := Focus.reply.inj hfocus
      obtain ⟨v, hv⟩ := World.lookup_error hanswer
      simp at hv
  | get idles reached => cases reached <;> simp at hfocus
  | wakeNext idles reached => cases reached <;> simp at hfocus
  | _ => simp at hfocus

end Query

end Steps

/-! ### Runs -/

section Runs

variable [DecidableEq K] [DecidableEq N] [BEq V] [ToString K]

/-- A machine makes a step, or another machine in the same world does. A context belongs to the
thread that runs the pass, so others leave it alone. -/
inductive Machine.Advances (body : B → ContextId → K → Body K N V σ B) :
    Machine K N V σ B → Machine K N V σ B → Prop
  | own {m m'} (made : m.step body = some m') : Advances body m m'
  | other {m} (o o' : Machine K N V σ B) (shares : o.world = m.world)
      (made : o.step body = some o')
      (apart : ∀ x, m.Holds x → ∀ k, o'.world.keyState x k = m.world.keyState x k) :
      Advances body m { m with world := o'.world }

variable {body : B → ContextId → K → Body K N V σ B}

/-- Whoever makes the step, the world grows. -/
theorem Machine.Advances.grows {m m' : Machine K N V σ B} (h : Advances body m m') :
    m.world.Grows m'.world := by
  cases h with
  | own made => exact (Transition.of_step made).obeys.grows
  | other o o' shares made apart =>
      rw [← shares]
      exact (Transition.of_step made).obeys.grows

/-- A pass of a run: its context, the moment at which the context is made, and the last moment of
the pass. -/
structure PassRun where
  context : ContextId
  start : Nat
  stop : Nat

variable {init : Machine K N V σ B → Prop} (e : Execution init (Machine.Advances body))
  (q : Query K N V σ B)

/-- The request starts a pass by the step that follows this moment. -/
def StartsPass (i : Nat) : Prop :=
  (∃ left, q.Attempts left (e.state i)) ∧ ∃ x asker, (e.state (i + 1)).focus = .ask x q.key asker

namespace PassRun

/-- The pass is one of the request, with so many more that may be started. -/
structure Runs (r : PassRun) (left : Nat) : Prop where
  opens : q.Opens left r.context (e.state r.start) (e.state (r.start + 1))
  lasts : ∀ i, r.start < i → i ≤ r.stop → q.InPass left r.context (e.state i)
  nonempty : r.start < r.stop
  finishes : q.Finishes left r.context (e.state r.stop) (e.state (r.stop + 1))

/-- The commit of the pass is turned down, and the key of the request is not published by then. -/
def Lost (r : PassRun) : Prop := q.Loses r.context (e.state r.stop)

/-- The builder that the pass has called for the key of the request returns this error. -/
def FailsWith (r : PassRun) (err : RequestError) : Prop :=
  ∃ i left thread, r.start < i ∧ i < r.stop ∧ (e.state i).focus = .run (.done (.error err)) ∧
    (e.state i).stack = q.frame left r.context thread :: q.stack

end PassRun

/-- These are the passes that the request has started between two moments. All of them are over. -/
structure Started (s i : Nat) (rs : List PassRun) : Prop where
  runs : ∀ (n : Nat) (h : n < rs.length), rs[n].Runs e q (passLimit - (n + 1))
  between : ∀ r ∈ rs, s ≤ r.start ∧ r.stop < i
  ordered : rs.Pairwise fun r r' => r.stop < r'.start
  all : ∀ j, s ≤ j → j < i → StartsPass e q j → ∃ r ∈ rs, r.start = j

/-- The passes of a request that is made at one moment and has its outcome at another one. -/
structure Course (s t : Nat) (outcome : Outcome V) (rs : List PassRun) : Prop where
  started : Started e q s t rs
  bounded : rs.length ≤ passLimit
  /-- A pass that is not the last one allowed is followed by another one if and only if it is
  lost. -/
  followed : ∀ (n : Nat) (h : n < rs.length), n + 1 < passLimit →
    (n + 1 < rs.length ↔ rs[n].Lost e q)
  /-- The request ends with a conflict if and only if as many passes as allowed were lost, or the
  builder of the last one has returned this conflict. -/
  conflict : ∀ text, outcome = .returned (.error (.conflict text)) ↔
    (text = toString q.key ∧ rs.length = passLimit ∧ ∀ r ∈ rs, r.Lost e q) ∨
      ∃ r, rs.getLast? = some r ∧ r.FailsWith e q (.conflict text)

/-- How far a request has come at some moment after it was made. -/
inductive Progress (s i : Nat) : Prop
  | asked (started : Started e q s i []) (asks : q.Asks (e.state i))
  | attempts {rs : List PassRun} {left : Nat} (started : Started e q s i rs)
      (lost : ∀ r ∈ rs, r.Lost e q) (attempts : q.Attempts left (e.state i))
      (length : rs.length + left = passLimit)
  | running {rs : List PassRun} {left start : Nat} {x : ContextId}
      (started : Started e q s start rs) (lost : ∀ r ∈ rs, r.Lost e q)
      (opens : q.Opens left x (e.state start) (e.state (start + 1))) (later : s ≤ start)
      (before : start < i) (lasts : ∀ j, start < j → j ≤ i → q.InPass left x (e.state j))
      (length : rs.length + (left + 1) = passLimit)

variable {e q} {s i : Nat} {rs : List PassRun}

/-- Nothing is started at this moment. -/
theorem Started.extend (h : Started e q s i rs) (hquiet : ¬ StartsPass e q i) :
    Started e q s (i + 1) rs where
  runs := h.runs
  between r hr := ⟨(h.between r hr).1, Nat.lt_succ_of_lt (h.between r hr).2⟩
  ordered := h.ordered
  all j hsj hji hstarts := by
    rcases Nat.lt_succ_iff_lt_or_eq.1 hji with hji | rfl
    · exact h.all j hsj hji hstarts
    · exact absurd hstarts hquiet

/-- A pass has been started after the others, and is over. -/
theorem Started.push {r : PassRun} {left : Nat} (h : Started e q s r.start rs)
    (hr : r.Runs e q left) (hlength : rs.length + (left + 1) = passLimit) (hs : s ≤ r.start) :
    Started e q s (r.stop + 1) (rs ++ [r]) where
  runs n hn := by
    rw [List.length_append, List.length_singleton] at hn
    rcases Nat.lt_succ_iff_lt_or_eq.1 hn with hn | rfl
    · rw [List.getElem_append_left hn]
      exact h.runs n hn
    · have hleft : passLimit - (rs.length + 1) = left := by omega
      rw [List.getElem_concat_length rfl, hleft]
      exact hr
  between r' hr' := by
    rcases List.mem_append.1 hr' with hr' | hr'
    · obtain ⟨hstart, hstop⟩ := h.between r' hr'
      exact ⟨hstart, Nat.lt_succ_of_lt (Nat.lt_trans hstop hr.nonempty)⟩
    · obtain rfl := List.mem_singleton.1 hr'
      exact ⟨hs, Nat.lt_succ_self _⟩
  ordered := by
    refine List.pairwise_append.2 ⟨h.ordered, List.pairwise_singleton _ r, fun a ha b hb => ?_⟩
    obtain rfl := List.mem_singleton.1 hb
    exact (h.between a ha).2
  all j hsj hjs hstarts := by
    rcases Nat.lt_trichotomy j r.start with hj | rfl | hj
    · obtain ⟨r', hr', hstart⟩ := h.all j hsj hj hstarts
      exact ⟨r', List.mem_append_left _ hr', hstart⟩
    · exact ⟨r, List.mem_append_right _ (List.mem_singleton_self r), rfl⟩
    · obtain ⟨n, hattempts⟩ := hstarts.1
      exact absurd hattempts ((hr.lasts j hj (Nat.lt_succ_iff.1 hjs)).not_attempts n)

/-- Each step is one of the machine, or changes nothing but the world. -/
theorem goes_cases {init : Machine K N V σ B → Prop}
    (e : Execution init (Machine.Advances body)) {i : Nat} (hi : i < e.length) :
    (e.state i).step body = some (e.state (i + 1)) ∨
      ∃ w, e.state (i + 1) = { e.state i with world := w } := by
  have hgoes := e.goes i hi
  generalize e.state (i + 1) = m' at hgoes
  cases hgoes with
  | own made => exact Or.inl made
  | other o o' shares made apart => exact Or.inr ⟨o'.world, rfl⟩

/-- A pass is answered with a conflict if and only if its builder has returned it. -/
theorem PassRun.Runs.answered_conflict_iff {r : PassRun} {left : Nat} (hr : r.Runs e q left)
    (hlength : r.stop ≤ e.length) (text : String) :
    (∃ n, q.Answered n r.context (.error (.conflict text)) (e.state r.stop)) ↔
      r.FailsWith e q (.conflict text) := by
  constructor
  · rintro ⟨n, hanswered⟩
    refine e.lasts (P := fun m => ∀ n, q.Answered n r.context (.error (.conflict text)) m →
      r.FailsWith e q (.conflict text)) hr.nonempty (fun n h => ?_) (fun j hj hjr ih n h => ?_)
      n hanswered
    · have hasks := hr.opens.asks.2.symm.trans h.2
      simp at hasks
    · rcases goes_cases e (Nat.lt_of_lt_of_le hjr hlength) with made | ⟨w, hother⟩
      · obtain ⟨hfocus, thread, hstack⟩ :=
          (hr.lasts j hj (Nat.le_of_lt hjr)).fails_of_answered made h
        exact ⟨j, left, thread, hj, hjr, hfocus, hstack⟩
      · rw [hother] at h
        exact ih n h
  · rintro ⟨i, n, thread, hi, hir, hfocus, hstack⟩
    have hreturned : ((e.state r.stop).focus = .run (.done (.error (.conflict text))) ∧
        (e.state r.stop).stack = q.frame n r.context thread :: q.stack) ∨
        q.Answered n r.context (.error (.conflict text)) (e.state r.stop) := by
      refine e.lasts (P := fun m => (m.focus = .run (.done (.error (.conflict text))) ∧
        m.stack = q.frame n r.context thread :: q.stack) ∨
        q.Answered n r.context (.error (.conflict text)) m) (Nat.le_of_lt hir)
        (Or.inl ⟨hfocus, hstack⟩) fun j hij hjr h => ?_
      rcases goes_cases e (Nat.lt_of_lt_of_le hjr hlength) with made | ⟨w, hother⟩
      · rcases h with ⟨hfocus, hstack⟩ | hanswered
        · rw [Machine.step, hfocus] at made
          simp only [Machine.stepRun, hstack] at made
          rw [← Option.some.inj made]
          exact Or.inr ⟨rfl, rfl⟩
        · have hpass := hr.lasts (j + 1) (Nat.lt_succ_of_lt (Nat.lt_of_lt_of_le hi hij)) hjr
          exact absurd (hanswered.step made) hpass.not_finishes
      · rw [hother]
        exact h
    rcases hreturned with ⟨hfocus, -⟩ | hanswered
    · cases hr.finishes with
      | panicked message focus delivers => simp [hfocus] at focus
      | settled answer outcome answered settles delivers =>
          have hreply := hfocus.symm.trans answered.2
          simp at hreply
      | lost loses attempts =>
          obtain ⟨left, v, w, hanswered, -⟩ := loses
          have hreply := hfocus.symm.trans hanswered.2
          simp at hreply
    · exact ⟨n, hanswered⟩

/-- A pass that is lost has a value. -/
theorem PassRun.Runs.not_failsWith {r : PassRun} {left : Nat} (hr : r.Runs e q left)
    (hlength : r.stop ≤ e.length) (lost : r.Lost e q) (text : String) :
    ¬ r.FailsWith e q (.conflict text) := by
  rw [← hr.answered_conflict_iff hlength]
  rintro ⟨n, hanswered⟩
  obtain ⟨m, v, w, hvalue, -⟩ := lost
  obtain ⟨-, -, hne, -⟩ := Focus.reply.inj (hvalue.2.symm.trans hanswered.2)
  simp at hne

/-- Every pass of the list has taken place. -/
theorem Started.runs_of_mem {r : PassRun} (h : Started e q s i rs) (hr : r ∈ rs) :
    ∃ left, r.Runs e q left := by
  obtain ⟨n, hn, rfl⟩ := List.mem_iff_getElem.1 hr
  exact ⟨_, h.runs n hn⟩

/-- A request that is answered at once starts no pass. -/
theorem Course.at_once {t : Nat} {outcome : Outcome V} (started : Started e q s t [])
    (answered : ∀ text, outcome ≠ .returned (.error (.conflict text))) :
    Course e q s t outcome [] where
  started := started
  bounded := Nat.zero_le _
  followed _ h := absurd h (Nat.not_lt_zero _)
  conflict text := by simp [answered text, passLimit]

/-- A request that has lost as many passes as allowed ends with a conflict. -/
theorem Course.exhausted {t : Nat} (started : Started e q s t rs) (lost : ∀ r ∈ rs, r.Lost e q)
    (length : rs.length = passLimit) (ht : t ≤ e.length) :
    Course e q s t (.returned (.error (.conflict (toString q.key)))) rs where
  started := started
  bounded := Nat.le_of_eq length
  followed n h hn := by
    rw [length]
    exact iff_of_true hn (lost _ (List.getElem_mem h))
  conflict text := by
    constructor
    · intro htext
      obtain rfl : toString q.key = text := by simpa using htext
      exact Or.inl ⟨rfl, length, lost⟩
    · rintro (⟨rfl, -⟩ | ⟨r, hlast, hfails⟩)
      · rfl
      · have hr := List.mem_of_getLast? hlast
        obtain ⟨left, hruns⟩ := started.runs_of_mem hr
        have hstop := Nat.le_trans (Nat.le_of_lt (started.between r hr).2) ht
        exact absurd hfails (hruns.not_failsWith hstop (lost r hr) text)

/-- A pass that is not lost is the last one. -/
theorem Course.ended {r : PassRun} {left : Nat} {outcome : Outcome V}
    (started : Started e q s r.start rs) (lost : ∀ r' ∈ rs, r'.Lost e q) (hr : r.Runs e q left)
    (length : rs.length + (left + 1) = passLimit) (hs : s ≤ r.start)
    (delivers : q.Delivers outcome (e.state (r.stop + 1))) (hlength : r.stop ≤ e.length) :
    Course e q s (r.stop + 1) outcome (rs ++ [r]) := by
  have hkept : ¬ r.Lost e q := by
    rw [PassRun.Lost, hr.finishes.loses_iff]
    rintro ⟨n, hattempts⟩
    exact hattempts.not_delivers _ delivers
  refine ⟨started.push hr length hs, ?_, fun n h hn => ?_, fun text => ?_⟩
  · rw [List.length_append, List.length_singleton]
    omega
  · rw [List.length_append, List.length_singleton] at h
    rcases Nat.lt_succ_iff_lt_or_eq.1 h with h | rfl
    · rw [List.getElem_append_left h, List.length_append, List.length_singleton]
      exact iff_of_true (Nat.succ_lt_succ h) (lost _ (List.getElem_mem h))
    · rw [List.getElem_concat_length rfl, List.length_append, List.length_singleton]
      exact iff_of_false (Nat.lt_irrefl _) hkept
  · rw [hr.finishes.conflict_iff delivers, hr.answered_conflict_iff hlength]
    constructor
    · exact fun h => Or.inr ⟨r, List.getLast?_concat, h⟩
    · rintro (⟨-, -, hall⟩ | ⟨r', hlast, hfails⟩)
      · exact absurd (hall r (List.mem_append_right _ (List.mem_singleton_self r))) hkept
      · obtain rfl : r = r' := by simpa using hlast
        exact hfails

/-- A request in progress has no outcome. -/
theorem Progress.not_delivers (h : Progress e q s i) (outcome : Outcome V) :
    ¬ q.Delivers outcome (e.state i) := by
  cases h with
  | asked started asks => exact asks.not_delivers outcome
  | attempts started lost attempts length => exact attempts.not_delivers outcome
  | running started lost opens later before lasts length =>
      exact (lasts i before (Nat.le_refl i)).not_delivers outcome

/-- A request has never started more passes than allowed. -/
theorem Progress.starts (h : Progress e q s i) :
    ∃ starts : List Nat, starts.length ≤ passLimit ∧
      ∀ j, s ≤ j → j < i → StartsPass e q j → j ∈ starts := by
  have hall {n : Nat} {rs : List PassRun} (hstarted : Started e q s n rs) (j : Nat) (hsj : s ≤ j)
      (hjn : j < n) (hstarts : StartsPass e q j) : j ∈ rs.map PassRun.start := by
    obtain ⟨r, hr, rfl⟩ := hstarted.all j hsj hjn hstarts
    exact List.mem_map_of_mem hr
  cases h with
  | asked started asks => exact ⟨_, Nat.zero_le _, hall started⟩
  | @attempts rs left started lost attempts length =>
      exact ⟨_, by rw [List.length_map]; omega, hall started⟩
  | @running rs left start x started lost opens later before lasts length =>
      refine ⟨rs.map PassRun.start ++ [start], ?_, fun j hsj hji hstarts => ?_⟩
      · rw [List.length_append, List.length_map, List.length_singleton]
        omega
      · rcases Nat.lt_trichotomy j start with hj | rfl | hj
        · exact List.mem_append_left _ (hall started j hsj hj hstarts)
        · exact List.mem_append_right _ (List.mem_singleton_self j)
        · obtain ⟨n, hattempts⟩ := hstarts.1
          exact absurd hattempts ((lasts j hj (Nat.le_of_lt hji)).not_attempts n)

/-- A step takes a request further, or gives it its outcome. -/
theorem Progress.advance (h : Progress e q s i) (hsi : s ≤ i) (hi : i < e.length) :
    Progress e q s (i + 1) ∨ ∃ outcome rs, q.Delivers outcome (e.state (i + 1)) ∧
      Course e q s (i + 1) outcome rs := by
  have hquiet (h : ∀ n, ¬ q.Attempts n (e.state i)) : ¬ StartsPass e q i := by
    rintro ⟨⟨n, hn⟩, -⟩
    exact h n hn
  rcases goes_cases e hi with made | ⟨w, hother⟩
  · cases h with
    | asked started asks =>
        have started' := started.extend (hquiet asks.not_attempts)
        rcases asks.step made with ⟨outcome, hdelivers, hanswered⟩ | hattempts
        · exact Or.inr ⟨outcome, [], hdelivers, .at_once started' hanswered⟩
        · exact Or.inl (.attempts started' (by simp) hattempts (Nat.zero_add _))
    | @attempts rs left started lost attempts length =>
        rcases attempts.step made with ⟨rfl, hdelivers⟩ | ⟨n, x, rfl, hopens⟩
        · have started' : Started e q s (i + 1) rs := started.extend fun h => by
            obtain ⟨-, x, asker, hfocus⟩ := h
            simp [hdelivers.2] at hfocus
          exact Or.inr ⟨_, rs, hdelivers, .exhausted started' lost length hi⟩
        · refine Or.inl (.running started lost hopens hsi (Nat.lt_succ_self i) (fun j hj hji => ?_)
            length)
          obtain rfl : j = i + 1 := Nat.le_antisymm hji hj
          exact hopens.inPass
    | @running rs left start x started lost opens later before lasts length =>
        rcases (lasts i before (Nat.le_refl i)).step made with hpass | hfinishes
        · refine Or.inl (.running started lost opens later (Nat.lt_succ_of_lt before)
            (fun j hj hji => ?_) length)
          rcases Nat.le_succ_iff.1 hji with hji | rfl
          · exact lasts j hj hji
          · exact hpass
        · have hr : PassRun.Runs e q ⟨x, start, i⟩ left := ⟨opens, lasts, before, hfinishes⟩
          cases hfinishes with
          | panicked message focus delivers =>
              exact Or.inr ⟨_, _, delivers, .ended started lost hr length later delivers
                (Nat.le_of_lt hi)⟩
          | settled answer outcome answered settles delivers =>
              exact Or.inr ⟨_, _, delivers, .ended started lost hr length later delivers
                (Nat.le_of_lt hi)⟩
          | lost loses attempts =>
              -- The pass joins those that were lost, and leaves one fewer to be started.
              have started' := started.push hr length later
              refine Or.inl (.attempts started' (fun r' hr' => ?_) attempts ?_)
              · rcases List.mem_append.1 hr' with hr' | hr'
                · exact lost r' hr'
                · obtain rfl := List.mem_singleton.1 hr'
                  exact loses
              · rw [List.length_append, List.length_singleton]
                omega
  · cases h with
    | asked started asks =>
        exact Or.inl (.asked (started.extend (hquiet asks.not_attempts))
          (hother ▸ asks.congr w))
    | attempts started lost attempts length =>
        refine Or.inl (.attempts (started.extend fun h => ?_) lost (hother ▸ attempts) length)
        obtain ⟨-, x, asker, hfocus⟩ := h
        rw [hother] at hfocus
        simp [attempts.2] at hfocus
    | running started lost opens later before lasts length =>
        refine Or.inl (.running started lost opens later (Nat.lt_succ_of_lt before)
          (fun j hj hji => ?_) length)
        rcases Nat.le_succ_iff.1 hji with hji | rfl
        · exact lasts j hj hji
        · exact hother ▸ (lasts i before (Nat.le_refl i)).congr w

/-- How far a request has come that has no outcome yet. -/
theorem progress {t : Nat} (hst : s ≤ t) (ht : t ≤ e.length) (asks : q.Asks (e.state s))
    (waits : ∀ j, s ≤ j → j ≤ t → ∀ outcome, ¬ q.Delivers outcome (e.state j)) :
    Progress e q s t := by
  induction hst with
  | refl => exact .asked ⟨by simp, by simp, .nil, fun j hsj hjs => by omega⟩ asks
  | @step t hst ih =>
      have hprogress := ih (Nat.le_of_succ_le ht) fun j hsj hjt =>
        waits j hsj (Nat.le_succ_of_le hjt)
      rcases hprogress.advance hst ht with h | ⟨outcome, rs, hdelivers, -⟩
      · exact h
      · exact absurd hdelivers (waits (t + 1) (Nat.le_succ_of_le hst) (Nat.le_refl _) outcome)

/-- A request that has its outcome has gone through a course of passes. -/
theorem Course.of_delivers {t : Nat} {outcome : Outcome V} (hst : s ≤ t) (ht : t ≤ e.length)
    (asks : q.Asks (e.state s)) (delivers : q.Delivers outcome (e.state t))
    (first : ∀ j, s ≤ j → j < t → ∀ r, ¬ q.Delivers r (e.state j)) :
    ∃ rs, Course e q s t outcome rs := by
  cases hst with
  | refl => exact absurd delivers (asks.not_delivers outcome)
  | @step t hst =>
      have hprogress := progress hst (Nat.le_of_succ_le ht) asks fun j hsj hjt =>
        first j hsj (Nat.lt_succ_of_le hjt)
      rcases hprogress.advance hst ht with h | ⟨r, rs, hdelivers, hcourse⟩
      · exact absurd delivers (h.not_delivers outcome)
      · obtain ⟨-, -, rfl, -⟩ := Focus.deliver.inj (hdelivers.2.symm.trans delivers.2)
        exact ⟨rs, hcourse⟩

end Runs

end DerivationCache
