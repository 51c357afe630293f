import DerivationCache.Proofs.NestedCalls

/-!
# Reentry

Builders that come back to the engine, by either of its doors, cannot go on forever. No quantity is
at hand that goes down from step to step: a request that is answered lets its routine go on, but a
request that has to be derived adds a builder call, with a routine of its own, and a pass that
conflicts is started again. But only so many builder calls can be in progress at a time, and a call
on top of which no other one can be made comes to its end, because its routine does. So calls come
to an end by induction on the number of calls that can still be made on top of them.

## Main results

* `Machine.Confined.progresses`: nobody waits for a key.
* `Machine.Confined.finishes`: a confined routine comes to an end.
* `reentry_comes_to_an_end`: a request for a derived value comes to an end, and how deep it goes.
-/

namespace DerivationCache

variable {K N V σ B : Type} [DecidableEq K] [DecidableEq N] [BEq V] [ToString K]

/-! ### Coming to a state -/

namespace Machine

/-- By finitely many steps, the machine comes to a state with this property. -/
inductive Comes (body : B → ContextId → K → Body K N V σ B) (P : Machine K N V σ B → Prop) :
    Machine K N V σ B → Prop
  | here {m : Machine K N V σ B} (holds : P m) : Comes body P m
  | step {m m' : Machine K N V σ B} (made : m.step body = some m') (rest : Comes body P m') :
      Comes body P m

namespace Comes

variable {body : B → ContextId → K → Body K N V σ B} {P Q : Machine K N V σ B → Prop}
  {m : Machine K N V σ B}

/-- Coming to a state from where another is come to. -/
theorem trans (h : Comes body P m) (hPQ : ∀ n, P n → Comes body Q n) : Comes body Q m := by
  induction h with
  | here holds => exact hPQ _ holds
  | step made rest ih => exact .step made ih

/-- What every step keeps is true where the machine comes to. -/
theorem keeping {I : Machine K N V σ B → Prop} (h : Comes body P m)
    (keeps : ∀ n n', I n → n.step body = some n' → I n') (hm : I m) :
    Comes body (fun n => I n ∧ P n) m := by
  induction h with
  | here holds => exact .here ⟨hm, holds⟩
  | step made rest ih => exact .step made (ih (keeps _ _ hm made))

/-- Enough fuel brings the machine there. -/
theorem run (h : Comes body P m) : ∃ fuel, P (Machine.run body fuel m) := by
  induction h with
  | here holds => exact ⟨0, holds⟩
  | step made rest ih =>
      obtain ⟨fuel, holds⟩ := ih
      refine ⟨fuel + 1, ?_⟩
      rwa [Machine.run, made]

end Comes

/-- The routine on this stack has come to its end: it has returned, or a panic unwinds it. -/
def Finished (stack : List (Frame K N V σ B)) (m : Machine K N V σ B) : Prop :=
  m.stack = stack ∧ ((∃ r, m.focus = .run (.done r)) ∨ ∃ message, m.focus = .run (.panic message))

/-- What answers a request for a key within a pass, or for the requested key of a pass: the answer,
or a panic that unwinds whoever has asked. -/
inductive Answered (x : ContextId) (k : K) : Asker K N V σ B → Focus K N V σ B → Prop
  | replied (answer : Except RequestError (Option V)) (asker : Asker K N V σ B) :
      Answered x k asker (.reply x k answer asker)
  | unwound (message : String) (next : Except RequestError (Option V) → Body K N V σ B) :
      Answered x k (.routine next) (.run (.panic message))
  | panicked (message : String) (p : Pass K) (receiver : Receiver K N V σ B) :
      Answered x k (.pass p receiver) (.deliver p.cache p.key (.panicked message) receiver)

end Machine

/-! ### Nobody waits -/

namespace World

variable {w : World K N V σ B} {c : CacheId} {x : ContextId}

omit [DecidableEq K] [DecidableEq N] [BEq V] [ToString K] in
/-- A context with a parent is there. -/
theorem context_of_parent (hx : w.parent? x = some c) :
    ∃ context, w.context? x = some context ∧ context.parent = some c := by
  cases hcontext : w.context? x with
  | none => simp [parent?, hcontext] at hx
  | some context =>
      rw [parent?_of_context? hcontext] at hx
      exact ⟨context, rfl, hx⟩

variable {cache : Cache K V σ B} (hcache : w.cache? c = some cache) (hx : w.parent? x = some c)

include hcache hx

omit [DecidableEq N] in
/-- Recording in a context with a parent has an answer. -/
theorem record_answers (k : K) (v : V) (overwrite : Bool) :
    ∃ r w', w.record x k v overwrite = some (r, w') := by
  obtain ⟨context, hcontext, hparent⟩ := context_of_parent hx
  simp only [record, hcontext, checkKey, hparent, hcache, bind, Option.bind_some, Option.map_some]
  cases cache.checkKey k with
  | error e => exact ⟨_, _, rfl⟩
  | ok u => rcases context.record k v overwrite with _ | _ | ⟨context', _ | cell⟩ <;>
      exact ⟨_, _, rfl⟩

omit [DecidableEq N] in
/-- So has committing it. -/
theorem commit_answers : ∃ r w', w.commit x = some (r, w') := by
  obtain ⟨context, hcontext, hparent⟩ := context_of_parent hx
  simp only [commit, hcontext, bind, Option.bind_some]
  cases context.refusal with
  | some e => exact ⟨_, _, rfl⟩
  | none => simp [hparent, onCache, hcache]

omit [DecidableEq N] [BEq V] in
/-- So has looking a key up. -/
theorem lookup_answers (k : K) : ∃ l w', w.lookup x k = some (l, w') := by
  obtain ⟨context, hcontext, hparent⟩ := context_of_parent hx
  simp only [lookup, hcontext, hparent, hcache, bind, Option.bind_some]
  rcases cache.published k with e | _ | v <;> exact ⟨_, _, rfl⟩

end World

namespace Machine

variable {m : Machine K N V σ B} {cache : Cache K V σ B} {c : CacheId} {k : K} {thread : ThreadId}

omit [DecidableEq N] [BEq V] [ToString K] in
/-- A pass on an existing cache can be settled, whatever its outcome. -/
theorem settle_answers {p : Pass K} (hcache : m.world.cache? p.cache = some cache)
    (outcome : Outcome V) (receiver : Receiver K N V σ B) :
    ∃ m', m.settle p outcome receiver = some m' := by
  simp [settle, World.onCache, hcache]

omit [DecidableEq N] [BEq V] in
/-- A thread that nobody but itself keeps from a key does not wait for it. -/
theorem claim_answers (hcache : m.world.cache? c = some cache)
    (hholder : ∀ t, m.world.holder c k = some t → t = thread) (receiver : Receiver K N V σ B) :
    ∃ m', m.claim c k thread receiver = some m' := by
  rw [World.holder, World.account_of_cache? hcache] at hholder
  simp only [claim, hcache, bind, Option.bind_some]
  split
  · rename_i owner hheld
    rw [Cache.claim] at hheld
    split at hheld
    · simp at hheld
    · rename_i t ht
      rw [if_pos (hholder t ht)] at hheld
      simp at hheld
  · exact ⟨_, rfl⟩
  · split <;> exact ⟨_, rfl⟩

section Passes

variable {w : World K N V σ B} {p : Pass K} (hcache : w.cache? p.cache = some cache)

include hcache

/-- A pass starts, or its request ends. -/
theorem attempt_progresses (body : B → ContextId → K → Body K N V σ B)
    (receiver : Receiver K N V σ B) (stack : List (Frame K N V σ B)) :
    ∃ m', (⟨w, .attempt p receiver, stack⟩ : Machine K N V σ B).step body = some m' := by
  obtain ⟨d, k, thread, left⟩ := p
  cases left with
  | zero => exact settle_answers hcache _ _
  | succ left => simp [step, stepAttempt, World.onCache, hcache, World.createContext]

omit hcache in
/-- A pass that is started may be followed by one less. -/
theorem step_attempt_succ {body : B → ContextId → K → Body K N V σ B} {d : CacheId} {left : Nat}
    {receiver : Receiver K N V σ B} {stack : List (Frame K N V σ B)}
    (made : (⟨w, .attempt ⟨d, k, thread, left + 1⟩ receiver, stack⟩ : Machine K N V σ B).step body =
      some m) : ∃ w' x, m = ⟨w', .ask x k (.pass ⟨d, k, thread, left⟩ receiver), stack⟩ := by
  rcases start_of_stepAttempt (p := ⟨d, k, thread, left + 1⟩) made with ⟨hleft, -⟩ |
    ⟨n, cache, x, w', hleft, -, -, rfl⟩
  · simp at hleft
  · obtain rfl : left = n := by simpa using hleft
    exact ⟨w', x, rfl⟩

/-- A pass that has its answer ends its request, or is followed by the next one. -/
theorem reply_progresses {x : ContextId} (hx : w.parent? x = some p.cache)
    (body : B → ContextId → K → Body K N V σ B) (k : K) (answer : Except RequestError (Option V))
    (receiver : Receiver K N V σ B) (stack : List (Frame K N V σ B)) :
    ∃ m', (⟨w, .reply x k answer (.pass p receiver), stack⟩ : Machine K N V σ B).step body =
      some m' := by
  rcases answer with e | _ | v
  · obtain ⟨cache', hcache'⟩ : ∃ cache',
        (w.setCache p.cache (cache.remember p.key e)).cache? p.cache = some cache' := by
      simp [hcache]
    simpa [step, stepReply, World.onCache, hcache] using settle_answers hcache' _ receiver
  · exact settle_answers hcache _ _
  · obtain ⟨committed, w', hcommit⟩ := World.commit_answers hcache hx
    obtain ⟨cache', hcache', -⟩ := (World.commit_obeys hcommit).grows.caches _ _ hcache
    simp only [step, stepReply, hcommit, bind, Option.bind_some]
    rcases committed with e | _ | _
    · exact settle_answers hcache' _ _
    · simp only [hcache', Option.bind_some]
      split
      · exact settle_answers hcache' _ _
      · exact ⟨_, rfl⟩
    · exact settle_answers hcache' _ _

end Passes

namespace Confined

variable {body : B → ContextId → K → Body K N V σ B} {w₀ : World K N V σ B} {keys : Finset K}
  {m' : Machine K N V σ B}

/-- The cache is still there. -/
theorem exists_cache (hm : m.Confined w₀ c keys) (hcache : ∃ cache, w₀.cache? c = some cache) :
    ∃ cache, m.world.cache? c = some cache := by
  obtain ⟨cache, hcache⟩ := hcache
  obtain ⟨cache', hcache', -⟩ := hm.grows.caches c cache hcache
  exact ⟨cache', hcache'⟩

variable (body)

/-- A request for a derived value is answered: if its key is held, then by the first thread, which
makes the request. -/
theorem get_progresses (hm : m.Confined w₀ c keys) (hcache : ∃ cache, w₀.cache? c = some cache)
    {next : Except RequestError V → Body K N V σ B} (hfocus : m.focus = .run (.get c k next)) :
    ∃ m', m.step body = some m' := by
  obtain ⟨cache, hcache⟩ := hm.exists_cache hcache
  obtain ⟨-, hsame⟩ := cache.request_reads k
  rw [step_get hcache hfocus]
  cases (cache.request k).1 with
  | some r => exact ⟨_, rfl⟩
  | none =>
      have hcurrent : (m.world.setCache c (cache.request k).2).cache? c =
          some (cache.request k).2 := World.cache?_setCache_self hcache _
      refine claim_answers hcurrent (fun t ht => ?_) _
      have hheld : m.world.holder c k = some t := by
        rw [← ht]
        exact (World.holder_of_account (World.account_of_ledger
          (World.ledger_setCache_of_eq hcache hsame) c k)).symm
      obtain ⟨-, hclaim⟩ := (hm.mirrors.holder c k t).1 hheld
      exact (hm.claims _ hclaim).2.2.trans hm.thread_eq.symm

/-- A request that names what there is is answered. -/
theorem perform_progresses (hm : m.Confined w₀ c keys) {request : Request K N V σ B}
    {next : request.Answer → Body K N V σ B} (hfocus : m.focus = .run (.perform request next)) :
    ∃ m', m.step body = some m' := by
  have hparent (x : ContextId) (hx : contextOn m.stack = some x) : m.world.parent? x = some c := by
    cases hstack : m.stack with
    | nil => simp [contextOn, hstack] at hx
    | cons frame rest =>
        obtain rfl : frame.context = x := by simpa [contextOn, hstack] using hx
        exact hm.attached frame.context (by simp [hstack])
  have hconfined := hm.focus
  rw [hfocus] at hconfined
  cases hconfined with
  | perform keeps answers after =>
      obtain ⟨a, w', hanswer⟩ := answers m.world hm.grows hparent
      simp [Machine.step, hfocus, stepRun, hanswer]

/-- A builder that has come to its end gives its result to whoever asked for it. -/
theorem frame_progresses (hm : m.Confined w₀ c keys) (hcache : ∃ cache, w₀.cache? c = some cache)
    {frame : Frame K N V σ B} {rest : List (Frame K N V σ B)}
    (hfinished : m.Finished (frame :: rest)) :
    ∃ m', m.step body = some m' := by
  obtain ⟨current, hcurrent⟩ := hm.exists_cache hcache
  have hparent : m.world.parent? frame.context = some c :=
    hm.attached frame.context (by simp [hfinished.1])
  have hpass {p : Pass K} (hp : p ∈ frame.asker.passes) :
      m.world.cache? p.cache = some current := by
    have hrunning : p ∈ m.passes := by
      rw [passes, hfinished.1]
      exact List.mem_append_right _ (List.mem_append_left _ hp)
    rw [(hm.pass_claim hrunning).1, hcurrent]
  obtain ⟨w, focus, stack⟩ := m
  obtain ⟨rfl, ⟨e | v, rfl⟩ | ⟨message, rfl⟩⟩ := hfinished
  · exact ⟨_, rfl⟩
  · obtain ⟨r, w', hrecord⟩ := World.record_answers hcurrent hparent frame.key v true
    cases r <;> simp [Machine.step, stepRun, hrecord]
  · obtain ⟨x, k, thread, next | ⟨p, receiver⟩⟩ := frame
    · exact ⟨_, rfl⟩
    · exact settle_answers (m := ⟨w, .run (.panic message), rest⟩)
        (hpass (List.mem_singleton_self p)) _ _

/-- While a confined routine is not at its end, there is a step to make. -/
theorem progresses (hm : m.Confined w₀ c keys) (hcache : ∃ cache, w₀.cache? c = some cache)
    (hfinished : ¬ m.Finished []) : ∃ m', m.step body = some m' := by
  obtain ⟨current, hcurrent⟩ := hm.exists_cache hcache
  have hend {frames : List (Frame K N V σ B)} (hframes : m.Finished frames) :
      ∃ m', m.step body = some m' := by
    cases frames with
    | nil => exact absurd hframes hfinished
    | cons frame rest => exact hm.frame_progresses body hcache hframes
  have hpass {p : Pass K} (hp : p ∈ m.focus.passes) :
      p.cache = c ∧ m.world.cache? p.cache = some current := by
    obtain ⟨rfl, -⟩ := hm.pass_claim (List.mem_append_left _ hp)
    exact ⟨rfl, hcurrent⟩
  have hattached {x : ContextId} (hx : x ∈ m.focus.contexts) : m.world.parent? x = some c :=
    hm.attached x (List.mem_append_left _ hx)
  have hfocus := hm.focus
  obtain ⟨w, focus, stack⟩ := m
  cases focus with
  | run b =>
      cases hfocus with
      | done r => exact hend ⟨rfl, Or.inl ⟨r, rfl⟩⟩
      | panic message => exact hend ⟨rfl, Or.inr ⟨message, rfl⟩⟩
      | perform keeps answers after => exact hm.perform_progresses body rfl
      | build own mem after => exact ⟨_, rfl⟩
      | get mem after => exact hm.get_progresses body hcache rfl
  | ask x k asker =>
      obtain ⟨l, w', hlookup⟩ :=
        World.lookup_answers hcurrent (hattached (List.mem_singleton_self x)) k
      cases l <;> simp [Machine.step, stepAsk, hlookup]
  | reply x k answer asker =>
      cases asker with
      | routine next => exact ⟨_, rfl⟩
      | pass p receiver =>
          obtain ⟨rfl, hp⟩ := hpass (List.mem_singleton_self p)
          exact reply_progresses hp (hattached (List.mem_singleton_self x)) ..
  | attempt p receiver => exact attempt_progresses (hpass (List.mem_singleton_self p)).2 ..
  | deliver d k outcome receiver => exact ⟨_, rfl⟩
  | wake d k waiting outcomes next => exact hfocus.elim

/-! ### Calls come to an end -/

variable {body}

/-- Wherever confined builders come to, they are still confined. -/
theorem comes (hbody : ∀ b x l, l ∈ keys → (body b x l).Confined w₀ c keys (some x))
    {P : Machine K N V σ B → Prop} (hm : m.Confined w₀ c keys) (h : m.Comes body P) :
    m.Comes body fun n => n.Confined w₀ c keys ∧ P n :=
  h.keeping (fun _ _ hn made => hn.step hbody made) hm

section Ends

variable (hcache : ∃ cache, w₀.cache? c = some cache)

include hcache

/-- A builder call that comes to its end answers the request that it was made for. -/
theorem finished_answers (hm : m.Confined w₀ c keys) {x : ContextId} {thread : ThreadId}
    {asker : Asker K N V σ B} {stack : List (Frame K N V σ B)}
    (hfinished : m.Finished (⟨x, k, thread, asker⟩ :: stack)) :
    m.Comes body fun n => n.stack = stack ∧ Answered x k asker n.focus := by
  obtain ⟨m', made⟩ := hm.frame_progresses body hcache hfinished
  refine .step made (.here ?_)
  obtain ⟨w, focus, stack'⟩ := m
  obtain ⟨rfl, ⟨r, rfl⟩ | ⟨message, rfl⟩⟩ := hfinished
  · cases Transition.of_step made with
    | returnError e => exact ⟨rfl, .replied _ asker⟩
    | returnRefused e => exact ⟨rfl, .replied _ asker⟩
    | returnRecorded recorded => exact ⟨rfl, .replied _ asker⟩
  · cases Transition.of_step made with
    | unwindRoutine message => exact ⟨rfl, .unwound message _⟩
    | unwindPass message idles => exact ⟨rfl, .panicked message _ _⟩

variable (hbody : ∀ b x l, l ∈ keys → (body b x l).Confined w₀ c keys (some x))
  {stack : List (Frame K N V σ B)}
  (deeper : ∀ n : Machine K N V σ B, n.Confined w₀ c keys → stack.length < n.stack.length →
    ∀ b, n.focus = .run b → n.Comes body (Finished n.stack))

include hbody deeper

/-- If deeper calls come to an end, a key that is requested is answered. -/
theorem ask_answers {w : World K N V σ B} {x : ContextId} {asker : Asker K N V σ B}
    (hm : (⟨w, .ask x k asker, stack⟩ : Machine K N V σ B).Confined w₀ c keys) :
    (⟨w, .ask x k asker, stack⟩ : Machine K N V σ B).Comes body fun n =>
      n.Confined w₀ c keys ∧ n.stack = stack ∧ Answered x k asker n.focus := by
  refine hm.comes hbody ?_
  obtain ⟨m', made⟩ := hm.progresses body hcache (by simp [Finished])
  have hm' := hm.step hbody made
  refine .step made ?_
  cases Transition.of_step made with
  | askAnswered answered => exact .here ⟨rfl, .replied _ asker⟩
  | askBuild b missed =>
      have hends := deeper _ hm' (Nat.lt_succ_self _) _ rfl
      exact (hm'.comes hbody hends).trans fun n hn => hn.1.finished_answers hcache hn.2

/-- If deeper calls come to an end, a claimed request comes to its outcome, since it may start only
so many passes. -/
theorem attempt_delivers {w : World K N V σ B} {p : Pass K} {receiver : Receiver K N V σ B}
    (hm : (⟨w, .attempt p receiver, stack⟩ : Machine K N V σ B).Confined w₀ c keys) :
    (⟨w, .attempt p receiver, stack⟩ : Machine K N V σ B).Comes body fun n =>
      n.stack = stack ∧ ∃ r, n.focus = .deliver p.cache p.key r receiver := by
  obtain ⟨d, k, thread, left⟩ := p
  induction left generalizing w with
  | zero =>
      obtain ⟨m', made⟩ := hm.progresses body hcache (by simp [Finished])
      obtain ⟨w', -, rfl⟩ := settle_inv made
      exact .step made (.here ⟨rfl, _, rfl⟩)
  | succ left ih =>
      obtain ⟨m', made⟩ := hm.progresses body hcache (by simp [Finished])
      have hm' := hm.step hbody made
      obtain ⟨w', x, rfl⟩ := step_attempt_succ made
      refine .step made ((hm'.ask_answers hcache hbody deeper).trans ?_)
      rintro ⟨w₁, focus, stack₁⟩ ⟨hn, rfl, hanswered⟩
      cases hanswered with
      | panicked message => exact .here ⟨rfl, _, rfl⟩
      | replied answer =>
          obtain ⟨n', made'⟩ := hn.progresses body hcache (by simp [Finished])
          have hn' := hn.step hbody made'
          refine .step made' ?_
          cases Transition.of_step made' with
          | passFailed e idles => exact .here ⟨rfl, _, rfl⟩
          | committed commit idles => exact .here ⟨rfl, _, rfl⟩
          | conflictSettled commit stored idles => exact .here ⟨rfl, _, rfl⟩
          | conflictRetried commit => exact ih hn'

/-- If deeper calls come to an end, a request for a derived value comes to its outcome. -/
theorem get_delivers {w : World K N V σ B} {next : Except RequestError V → Body K N V σ B}
    (hm : (⟨w, .run (.get c k next), stack⟩ : Machine K N V σ B).Confined w₀ c keys) :
    (⟨w, .run (.get c k next), stack⟩ : Machine K N V σ B).Comes body fun n =>
      n.Confined w₀ c keys ∧ n.stack = stack ∧ ∃ r, n.focus = .deliver c k r (.caller next) := by
  refine hm.comes hbody ?_
  obtain ⟨m', made⟩ := hm.get_progresses body hcache rfl
  have hm' := hm.step hbody made
  refine .step made ?_
  cases Transition.of_step made with
  | get idles reached =>
      cases reached with
      | outcome r stored => exact .here ⟨rfl, _, rfl⟩
      | claimed thread => exact hm'.attempt_delivers hcache hbody deeper

/-- If deeper calls come to an end, a routine does. -/
theorem run_finishes {w : World K N V σ B} {b : Body K N V σ B}
    (hm : (⟨w, .run b, stack⟩ : Machine K N V σ B).Confined w₀ c keys) :
    (⟨w, .run b, stack⟩ : Machine K N V σ B).Comes body (Finished stack) := by
  have hb : b.Confined w₀ c keys (contextOn stack) := hm.focus
  generalize contextOn stack = x at hb
  induction hb generalizing w with
  | done r => exact .here ⟨rfl, Or.inl ⟨r, rfl⟩⟩
  | panic message => exact .here ⟨rfl, Or.inr ⟨message, rfl⟩⟩
  | perform keeps answers after ih =>
      obtain ⟨m', made⟩ := hm.perform_progresses body rfl
      have hm' := hm.step hbody made
      refine .step made ?_
      cases Transition.of_step made with
      | perform request next answered => exact ih _ hm'
  | @build y k next own mem after ih =>
      have made : (⟨w, .run (.build y k next), stack⟩ : Machine K N V σ B).step body =
          some ⟨w, .ask y k (.routine next), stack⟩ := rfl
      have hm' := hm.step hbody made
      refine .step made ((hm'.ask_answers hcache hbody deeper).trans ?_)
      rintro ⟨w₁, focus, stack₁⟩ ⟨hn, rfl, hanswered⟩
      cases hanswered with
      | unwound message => exact .here ⟨rfl, Or.inr ⟨message, rfl⟩⟩
      | replied answer => exact .step rfl (ih answer (hn.step hbody rfl))
  | @get k next mem after ih =>
      refine (hm.get_delivers hcache hbody deeper).trans ?_
      rintro ⟨w₁, focus, stack₁⟩ ⟨hn, rfl, r, rfl⟩
      cases r with
      | returned r => exact .step rfl (ih r (hn.step hbody rfl))
      | panicked message => exact .step rfl (.here ⟨rfl, Or.inr ⟨message, rfl⟩⟩)

omit deeper

/-- A confined routine comes to its end. Only so many builder calls can be in progress on top of
each other, so calls come to an end by induction on how many more there can be. -/
theorem finishes (hm : m.Confined w₀ c keys) {b : Body K N V σ B} (hfocus : m.focus = .run b) :
    m.Comes body (Finished m.stack) := by
  induction hdepth : keys.card * keys.card - m.stack.length using Nat.strong_induction_on
    generalizing m b with
  | _ depth ih =>
      obtain ⟨w, focus, stack⟩ := m
      obtain rfl : focus = .run b := hfocus
      refine hm.run_finishes hcache hbody fun n hn hlt b' hb' => ?_
      have hbound := hn.length_stack_le
      have hless : keys.card * keys.card - n.stack.length < depth := by
        rw [← hdepth]
        exact Nat.sub_lt_sub_left (Nat.lt_of_lt_of_le hlt hbound) hlt
      exact ih _ hless hn hb' rfl

end Ends

end Confined

end Machine

/-- A derived value is requested while nothing is claimed, and all builders request keys of a finite
set only, within their passes or from the cache, whatever they are answered. They clear nothing.

Then the request comes to its end, and on the way

* no two requests that are deriving a key derive the same one;
* no builder is called twice for one key of one context, while the first call is in progress;
* the number of builder calls in progress is at most the square of the number of keys. -/
theorem reentry_comes_to_an_end {body : B → ContextId → K → Body K N V σ B} {w : World K N V σ B}
    {c : CacheId} {keys : Finset K} {k : K} (hcache : ∃ cache, w.cache? c = some cache)
    (free : ∀ d l, w.holder d l = none) (hk : k ∈ keys)
    (hbody : ∀ b x l, l ∈ keys → (body b x l).Confined w c keys (some x)) :
    (∃ fuel,
      (∃ r, ((Machine.start w (.get c k .done)).run body fuel).status body = .returned r) ∨
      ∃ message, ((Machine.start w (.get c k .done)).run body fuel).status body =
        .panicked message) ∧
    ∀ i,
      (((Machine.start w (.get c k .done)).run body i).held.map
        fun claim => (claim.1, claim.2.1)).Nodup ∧
      (((Machine.start w (.get c k .done)).run body i).stack.map
        fun frame => (frame.context, frame.key)).Nodup ∧
      ((Machine.start w (.get c k .done)).run body i).stack.length ≤ keys.card * keys.card := by
  have hstart : (Machine.start w (.get c k .done)).Confined w c keys :=
    .start free (.get hk fun r => .done r)
  constructor
  · obtain ⟨fuel, hstack, hfocus⟩ := (hstart.finishes hcache hbody rfl).run
    have hempty : ((Machine.start w (.get c k .done)).run body fuel).stack = [] := hstack
    refine ⟨fuel, hfocus.imp ?_ ?_⟩
    · rintro ⟨r, hr⟩
      exact ⟨r, by rw [Machine.status, hr, hempty]⟩
    · rintro ⟨message, hmessage⟩
      exact ⟨message, by rw [Machine.status, hmessage, hempty]⟩
  · intro i
    have hm := hstart.run hbody i
    exact ⟨hm.mirrors.once (), hm.apart, hm.length_stack_le⟩

/-! ### Two builders that call each other by both doors -/

namespace MutualBuilders

/-- Builders can be made, and nothing else is configured. -/
def config : Config Nat Nat Unit Unit where
  makeBuilder := some fun client => ((), client)

/-- The builder of `0` or `1` requests the other key within its pass, then its own from the cache,
and records a value itself. -/
def body (_ : Unit) (x : ContextId) (k : Nat) : Body Nat Unit Nat Unit Unit :=
  .build x (1 - k) fun _ => .get ⟨0⟩ k fun _ =>
    .perform (.record x k k true) fun _ => .done (.ok k)

/-- One empty cache. -/
def world : World Nat Unit Nat Unit Unit := (World.newCache { client := () } config).2

/-- The request of the outside, for key `0`. -/
def main : Machine Nat Unit Nat Unit Unit := .start world (.get ⟨0⟩ 0 .done)

/-- The builders stay within their own context, the one cache and the two keys. -/
theorem body_confined (b : Unit) (x : ContextId) {k : Nat} (hk : k ∈ ({0, 1} : Finset Nat)) :
    (body b x k).Confined world ⟨0⟩ {0, 1} (some x) := by
  have hother : 1 - k ∈ ({0, 1} : Finset Nat) := by
    rw [Finset.mem_insert, Finset.mem_singleton] at hk ⊢
    omega
  have hrecord : (Routine.perform (.record x k k true) fun _ => .done (.ok k) :
      Body Nat Unit Nat Unit Unit).Confined world ⟨0⟩ {0, 1} (some x) := by
    refine .perform (by simp) (fun w hgrows hx => ?_) fun _ => .done _
    obtain ⟨cache, hcache, -⟩ := hgrows.caches ⟨0⟩ _ rfl
    exact World.record_answers hcache (hx x rfl) k k true
  exact .build rfl hother fun _ => .get hk fun _ => hrecord

/-- Key `0` comes to its end, and four builder calls are in progress on the way: the square of the
number of keys. -/
theorem main_comes_to_an_end :
    (∃ cache, world.cache? ⟨0⟩ = some cache) ∧ (∀ d l, world.holder d l = none) ∧
      (∀ b x l, l ∈ ({0, 1} : Finset Nat) →
        (body b x l).Confined world ⟨0⟩ {0, 1} (some x)) ∧
      (∃ fuel, (∃ r, (main.run body fuel).status body = .returned r) ∨
        ∃ message, (main.run body fuel).status body = .panicked message) ∧
      (∀ i, (main.run body i).stack.length ≤ 4) ∧
      (main.run body 13).stack.length = 4 := by
  have hcache : ∃ cache, world.cache? ⟨0⟩ = some cache := ⟨_, rfl⟩
  have free : ∀ d l, world.holder d l = none := by
    intro d l
    rw [World.holder, world, World.newCache_account]
    rfl
  have hbody : ∀ b x l, l ∈ ({0, 1} : Finset Nat) →
      (body b x l).Confined world ⟨0⟩ {0, 1} (some x) :=
    fun b x l hl => body_confined b x hl
  obtain ⟨hends, hnested⟩ := reentry_comes_to_an_end hcache free (by decide) hbody (k := 0)
  exact ⟨hcache, free, hbody, hends, fun i => (hnested i).2.2, by decide +kernel⟩

end MutualBuilders

end DerivationCache
