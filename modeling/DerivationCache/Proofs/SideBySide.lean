import DerivationCache.Proofs.Account
import DerivationCache.Proofs.Bookkeeping

/-!
# Two passes side by side

A request for a derived value counts itself, claims its key, and runs a pass: a fresh context, the
request of the key in it, and the commit of the context. A routine can do all of this by hand
(`Routine.byHand`), except for the counting and the claim.

Both passes call the builder for the key. While this call is running, and the builder keeps to its
context, the worlds differ by a change that the pass cannot see (`Parallel`): every step of the one
is a step of the other. They part when the call is over.

What is called in a run is read off its machines (`Machine.event?`), with what it is called with and
what comes of it.

## Main results

* `Parallel.step`: what a step comes to while both passes are running.
* `Parallel.run`: they run side by side for as long as one likes, or until they part.
-/

namespace DerivationCache

variable {K N V σ B : Type}

/-! ### What is called -/

/-- What is called in a pass: builders, which return or are unwound, and placeholder factories. -/
inductive PassEvent (K V B : Type) where
  | called (builder : B) (context : ContextId) (key : K)
  | returned (context : ContextId) (key : K) (result : Except RequestError V)
  | unwound (context : ContextId) (key : K) (message : String)
  /-- The factory was asked for a stand-in for the key, and this is what came of it. -/
  | issued (context : ContextId) (key : K) (placeholder : Placeholder V)

namespace Machine

variable [DecidableEq K] [ToString K]

/-- What the next step calls, or which call it ends. -/
def event? (m : Machine K N V σ B) : Option (PassEvent K V B) :=
  match m.focus, m.stack with
  | .run (.done r), frame :: _ => some (.returned frame.context frame.key r)
  | .run (.panic message), frame :: _ => some (.unwound frame.context frame.key message)
  | .ask x k _, _ =>
    match m.world.lookup x k with
    | some (.build b, _) => some (.called b x k)
    | some (.answered _, w) =>
      match m.world.keyState x k, w.keyState x k with
      | some .pending, some (.placeholderIssued p) => some (.issued x k p)
      | _, _ => none
    | none => none
  | _, _ => none

/-- The calls on the way, in this order. -/
def events (ms : List (Machine K N V σ B)) : List (PassEvent K V B) := ms.filterMap event?

/-- The calls on two parts of the way, one after the other. -/
theorem events_append (ms ms' : List (Machine K N V σ B)) :
    events (ms ++ ms') = events ms ++ events ms' := List.filterMap_append ..

/-- The call of the first machine comes first. -/
theorem events_cons (m : Machine K N V σ B) (ms : List (Machine K N V σ B)) :
    events (m :: ms) = m.event?.toList ++ events ms := by
  cases h : m.event? <;> simp [events, h]

end Machine

/-! ### By hand -/

namespace Routine

/-- Goes on after the commit of a pass that has this value. There is no outcome if the commit is
turned down. -/
def committed (v : V) (next : Option (Except RequestError V) → Body K N V σ B) :
    Except Violation Bool → Body K N V σ B
  | .error e => next (some (.error (.violation e)))
  | .ok true => next (some (.ok v))
  | .ok false => next none

/-- Commits the context if the request in it was answered with a value. There is no outcome
without a builder. -/
def handed (x : ContextId) (next : Option (Except RequestError V) → Body K N V σ B) :
    Except RequestError (Option V) → Body K N V σ B
  | .error e => next (some (.error e))
  | .ok none => next none
  | .ok (some v) => .perform (.commit x) (committed v next)

/-- Makes a context of the cache, requests the key in it, and commits it. -/
def byHand (c : CacheId) (k : K) (next : Option (Except RequestError V) → Body K N V σ B) :
    Body K N V σ B :=
  .perform (.createContext c none none) fun (x : ContextId) => .build x k (handed x next)

end Routine

/-- Two passes of a key: one of a request, and one that is driven by hand. -/
structure PassPair (K N V σ B : Type) where
  cache : CacheId
  key : K
  context : ContextId
  builder : B
  /-- Who gets the outcome of the request. -/
  next : Except RequestError V → Body K N V σ B
  /-- Who gets the outcome of the other pass. -/
  next' : Option (Except RequestError V) → Body K N V σ B
  /-- The builder calls in progress before the passes. -/
  below : List (Frame K N V σ B)

namespace PassPair

/-- The thread that the passes run on. -/
def thread (s : PassPair K N V σ B) : ThreadId :=
  match s.below with
  | [] => .main
  | frame :: _ => frame.thread

/-- The key was requested by a pass. -/
def requested (s : PassPair K N V σ B) : Asker K N V σ B :=
  .pass ⟨s.cache, s.key, s.thread, passLimit - 1⟩ (.caller s.next)

/-- The key was requested by hand. -/
def driven (s : PassPair K N V σ B) : Asker K N V σ B :=
  .routine (Routine.handed s.context s.next')

/-- The builder call for the key. -/
def frame (s : PassPair K N V σ B) (asker : Asker K N V σ B) : Frame K N V σ B :=
  ⟨s.context, s.key, s.thread, asker⟩

variable [DecidableEq K]

/-- The world of the request. -/
def engage (s : PassPair K N V σ B) (w : World K N V σ B) : World K N V σ B :=
  w.adjust s.cache fun cache => cache.engaged s.key s.thread

/-- The pass that is driven by hand is running in the world. -/
structure Running (s : PassPair K N V σ B) (w : World K N V σ B) : Prop where
  context : ∃ context, w.context? s.context = some context ∧ context.parent = some s.cache ∧
    context.builder = some s.builder
  cache : ∃ cache, w.cache? s.cache = some cache
  free : w.holder s.cache s.key = none

/-- The call was made for a routine that keeps to the context of the passes. -/
structure Inner (s : PassPair K N V σ B) (frame : Frame K N V σ B) : Prop where
  context : frame.context = s.context
  thread : frame.thread = s.thread
  asker : ∃ next, frame.asker = .routine next ∧ ∀ answer, (next answer).KeepsTo s.context

end PassPair

/-- A routine that keeps to the context is at work. -/
def Focus.KeepsTo (x : ContextId) : Focus K N V σ B → Prop
  | .run b => b.KeepsTo x
  | .ask y _ (.routine next) => y = x ∧ ∀ answer, (next answer).KeepsTo x
  | .reply y _ _ (.routine next) => y = x ∧ ∀ answer, (next answer).KeepsTo x
  | _ => False

variable [DecidableEq K]

/-- The two passes are running side by side. -/
inductive Parallel (s : PassPair K N V σ B) : Machine K N V σ B → Machine K N V σ B → Prop
  | intro {w focus frames} (running : s.Running w) (keeps : Focus.KeepsTo s.context focus)
      (inner : ∀ frame ∈ frames, s.Inner frame) :
      Parallel s ⟨s.engage w, focus, frames ++ s.frame s.requested :: s.below⟩
        ⟨w, focus, frames ++ s.frame s.driven :: s.below⟩

/-- The builder call for the key has returned in both of them. -/
inductive Replied (s : PassPair K N V σ B) : Machine K N V σ B → Machine K N V σ B → Prop
  | intro {w} (running : s.Running w) (r : Except RequestError V) :
      Replied s ⟨s.engage w, .reply s.context s.key (r.map some) s.requested, s.below⟩
        ⟨w, .reply s.context s.key (r.map some) s.driven, s.below⟩

/-- A panic is about to unwind the builder call for the key in both of them. -/
inductive Unwinding (s : PassPair K N V σ B) : Machine K N V σ B → Machine K N V σ B → Prop
  | intro {w} (running : s.Running w) (message : String) :
      Unwinding s ⟨s.engage w, .run (.panic message), s.frame s.requested :: s.below⟩
        ⟨w, .run (.panic message), s.frame s.driven :: s.below⟩

variable {s : PassPair K N V σ B} {m m' : Machine K N V σ B} {w w' : World K N V σ B}

/-- The passes go on running in a world that has grown, as long as the claims stay as they are. -/
theorem PassPair.Running.grows (h : s.Running w) (hgrows : w.Grows w')
    (hholder : ∀ c k, w'.holder c k = w.holder c k) : s.Running w' where
  context := by
    obtain ⟨context, hx, hparent, hbuilder⟩ := h.context
    obtain ⟨context', hx', hparent', hbuilder', -⟩ := hgrows.contexts s.context context hx
    exact ⟨context', hx', hparent'.trans hparent, hbuilder'.trans hbuilder⟩
  cache := by
    obtain ⟨cache, hcache⟩ := h.cache
    obtain ⟨cache', hcache', -⟩ := hgrows.caches s.cache cache hcache
    exact ⟨cache', hcache'⟩
  free := (hholder s.cache s.key).trans h.free

/-! ### Side by side -/

section Steps

variable [DecidableEq N] [BEq V] [ToString K] {body : B → ContextId → K → Body K N V σ B}

omit [DecidableEq N] [ToString K] in
/-- What the request does to the cache beforehand is out of sight of its context. -/
theorem PassPair.hidden (s : PassPair K N V σ B) :
    Cache.Hidden fun cache : Cache K V σ B => cache.engaged s.key s.thread :=
  Cache.engaged_hidden s.key s.thread

omit [DecidableEq N] in
/-- So it finds what the pass that is driven by hand finds. -/
theorem PassPair.lookup_engage (s : PassPair K N V σ B) (w : World K N V σ B) (x : ContextId)
    (k : K) : (s.engage w).lookup x k = (w.lookup x k).map fun p => (p.1, s.engage p.2) :=
  World.lookup_adjust s.hidden w s.cache x k

omit [DecidableEq N] in
/-- Both passes make the same call. -/
theorem Parallel.event_eq (h : Parallel s m m') : m.event? = m'.event? := by
  obtain ⟨running, keeps, inner⟩ := h
  rename_i w focus frames
  cases focus with
  | run b =>
      cases b with
      | done r => cases frames <;> rfl
      | panic message => cases frames <;> rfl
      | _ => rfl
  | ask x k asker =>
      simp only [Machine.event?, s.lookup_engage]
      cases w.lookup x k with
      | none => rfl
      | some found =>
          obtain ⟨found, w'⟩ := found
          cases found <;> rfl
  | _ => rfl

/-- What a step comes to while both passes are running. -/
inductive Proceeds (body : B → ContextId → K → Body K N V σ B) (s : PassPair K N V σ B)
    (m m' : Machine K N V σ B) : Prop
  | on {n n'} (made : m.step body = some n) (made' : m'.step body = some n')
      (parallel : Parallel s n n')
  | replied {n n'} (made : m.step body = some n) (made' : m'.step body = some n')
      (replied : Replied s n n')
  | unwinds (unwinding : Unwinding s m m')
  | stuck (stays : m.step body = none) (stays' : m'.step body = none)

variable {frames : List (Frame K N V σ B)}

omit [DecidableEq N] [BEq V] [ToString K] in
/-- The passes are side by side when both are about to go on with the same routine. -/
theorem Parallel.of_run {b : Body K N V σ B} (running : s.Running w) (keeps : b.KeepsTo s.context)
    (inner : ∀ frame ∈ frames, s.Inner frame) :
    Parallel s ⟨s.engage w, .run b, frames ++ s.frame s.requested :: s.below⟩
      ⟨w, .run b, frames ++ s.frame s.driven :: s.below⟩ :=
  .intro running keeps inner

omit [DecidableEq N] [BEq V] [ToString K] in
/-- So they are when both are about to hand on the same answer. -/
theorem Parallel.of_reply {next : Except RequestError (Option V) → Body K N V σ B}
    (running : s.Running w) (keeps : ∀ answer, (next answer).KeepsTo s.context)
    (inner : ∀ frame ∈ frames, s.Inner frame) (k : K) (answer : Except RequestError (Option V)) :
    Parallel s
      ⟨s.engage w, .reply s.context k answer (.routine next),
        frames ++ s.frame s.requested :: s.below⟩
      ⟨w, .reply s.context k answer (.routine next), frames ++ s.frame s.driven :: s.below⟩ :=
  .intro running ⟨rfl, keeps⟩ inner

omit [DecidableEq N] [BEq V] [ToString K] [DecidableEq K] in
/-- All calls of a pass run on one thread. -/
theorem PassPair.thread_eq [DecidableEq K] (inner : ∀ frame ∈ frames, s.Inner frame)
    (w : World K N V σ B) (focus : Focus K N V σ B) (asker : Asker K N V σ B) :
    (⟨w, focus, frames ++ s.frame asker :: s.below⟩ : Machine K N V σ B).thread = s.thread := by
  cases frames with
  | nil => rfl
  | cons call frames => exact (inner call (List.mem_cons_self ..)).thread

omit [DecidableEq N] in
/-- What a builder call for the key comes to when it returns: a value is recorded. -/
def World.afterReturn (w : World K N V σ B) (x : ContextId) (k : K) :
    Except RequestError V → Option (Except RequestError V × World K N V σ B)
  | .error e => some (.error e, w)
  | .ok v => (w.record x k v true).map fun p =>
      match p.1 with
      | .error e => (.error (.violation e), p.2)
      | .ok () => (.ok v, p.2)

omit [DecidableEq N] in
/-- What a builder returns is recorded alike in both of them. -/
theorem PassPair.afterReturn_engage (s : PassPair K N V σ B) (w : World K N V σ B) (x : ContextId)
    (k : K) (r : Except RequestError V) : (s.engage w).afterReturn x k r =
      (w.afterReturn x k r).map fun p => (p.1, s.engage p.2) := by
  cases r with
  | error e => rfl
  | ok v =>
      have hrecord := World.record_adjust s.hidden w s.cache x k v true
      rw [World.afterReturn, World.afterReturn, engage, hrecord]
      cases w.record x k v true with
      | none => rfl
      | some p =>
          obtain ⟨r, w'⟩ := p
          cases r <;> rfl

/-- A builder call that returns answers the request that it was made for. -/
theorem Machine.step_done (w : World K N V σ B) (r : Except RequestError V)
    (frame : Frame K N V σ B) (stack : List (Frame K N V σ B)) :
    (⟨w, .run (.done r), frame :: stack⟩ : Machine K N V σ B).step body =
      (w.afterReturn frame.context frame.key r).map fun p =>
        ⟨p.2, .reply frame.context frame.key (p.1.map some) frame.asker, stack⟩ := by
  cases r with
  | error e => rfl
  | ok v =>
      simp only [step, stepRun, World.afterReturn, bind]
      cases w.record frame.context frame.key v true with
      | none => rfl
      | some p =>
          obtain ⟨r, w'⟩ := p
          cases r <;> rfl

/-- A request within a pass is answered, or a builder is called for it. -/
theorem Machine.step_ask (w : World K N V σ B) (x : ContextId) (k : K)
    (next : Except RequestError (Option V) → Body K N V σ B) (stack : List (Frame K N V σ B)) :
    (⟨w, .ask x k (.routine next), stack⟩ : Machine K N V σ B).step body =
      (w.lookup x k).map fun p =>
        match p.1 with
        | .answered answer => ⟨p.2, .reply x k answer (.routine next), stack⟩
        | .build b => ⟨p.2, .run (body b x k), ⟨x, k,
            (⟨w, .ask x k (.routine next), stack⟩ : Machine K N V σ B).thread,
            .routine next⟩ :: stack⟩ := by
  simp only [step, stepAsk, bind]
  cases w.lookup x k with
  | none => rfl
  | some p =>
      obtain ⟨found, w'⟩ := p
      cases found <;> rfl

namespace PassPair.Running

omit [DecidableEq N] in
/-- The passes are still running when a builder's value has been recorded. -/
theorem afterReturn (running : s.Running w) {x : ContextId} {k : K} {r r' : Except RequestError V}
    (h : w.afterReturn x k r = some (r', w')) : s.Running w' := by
  cases r with
  | error e =>
      obtain ⟨-, rfl⟩ := Prod.mk.inj (Option.some.inj h)
      exact running
  | ok v =>
      obtain ⟨⟨answer, w₁⟩, hrecord, h⟩ := Option.map_eq_some_iff.1 h
      obtain rfl : w₁ = w' := by
        cases answer <;> exact congrArg Prod.snd h
      exact running.grows (World.record_obeys hrecord).grows fun c l =>
        World.holder_of_account (World.account_of_ledger (World.record_ledger hrecord).1 c l)

omit [DecidableEq N] [BEq V] in
/-- So they are when a key has been looked up. -/
theorem lookup (running : s.Running w) {x : ContextId} {k : K} {found : World.Lookup V B}
    (h : w.lookup x k = some (found, w')) : s.Running w' :=
  running.grows (World.lookup_inv h).1.grows
    fun c l => World.holder_of_account (World.account_of_ledger (World.lookup_ledger h).1 c l)

/-- Requests of a routine that keeps to its context change no claim. -/
theorem answer (running : s.Running w) {x : ContextId} {r : Request K N V σ B} {a : r.Answer}
    (hr : r.Within x ∨ r = .commit x) (h : w.answer r = some (a, w')) : s.Running w' := by
  refine running.grows (World.answer_obeys h).grows (World.answer_fills h fun c hc => ?_).holder
  rcases hr with hr | rfl
  · subst hc
    cases hr with
    | apart apart => cases apart
  · simp at hc

omit [DecidableEq N] [BEq V] in
/-- The builder of the context is called, and no other. -/
theorem builder_eq (running : s.Running w) {k : K} {b : B}
    (h : w.lookup s.context k = some (.build b, w')) : b = s.builder := by
  obtain ⟨context, hx, hb, -⟩ := World.lookup_build h
  obtain ⟨context', hx', -, hb'⟩ := running.context
  obtain rfl : context = context' := Option.some.inj (hx.symm.trans hx')
  exact Option.some.inj (hb.symm.trans hb')

/-- A builder call returns: it is that for the key, or one that was made for another. -/
theorem proceeds_done (running : s.Running w) (inner : ∀ frame ∈ frames, s.Inner frame)
    (r : Except RequestError V) :
    Proceeds body s ⟨s.engage w, .run (.done r), frames ++ s.frame s.requested :: s.below⟩
      ⟨w, .run (.done r), frames ++ s.frame s.driven :: s.below⟩ := by
  cases frames with
  | nil =>
      rw [List.nil_append, List.nil_append]
      cases hreturn : w.afterReturn s.context s.key r with
      | none =>
          refine .stuck ?_ ?_
          · simp [Machine.step_done, s.afterReturn_engage, frame, hreturn]
          · simp [Machine.step_done, frame, hreturn]
      | some p =>
          refine .replied ?_ ?_ (.intro (running.afterReturn hreturn) p.1)
          · simp [Machine.step_done, s.afterReturn_engage, frame, hreturn]
          · simp [Machine.step_done, frame, hreturn]
  | cons call frames =>
      have hcall := inner call (List.mem_cons_self ..)
      obtain ⟨next, hnext, hkeeps⟩ := hcall.asker
      rw [List.cons_append, List.cons_append]
      cases hreturn : w.afterReturn s.context call.key r with
      | none =>
          refine .stuck ?_ ?_
          · simp [Machine.step_done, s.afterReturn_engage, hcall.context, hreturn]
          · simp [Machine.step_done, hcall.context, hreturn]
      | some p =>
          refine .on ?_ ?_ (.of_reply (running.afterReturn hreturn) hkeeps
            (fun f hf => inner f (List.mem_cons_of_mem _ hf)) call.key (p.1.map some))
          · simp [Machine.step_done, s.afterReturn_engage, hcall.context, hreturn, hnext]
          · simp [Machine.step_done, hcall.context, hreturn, hnext]

/-- A panic unwinds the innermost builder call. -/
theorem proceeds_panic (running : s.Running w) (inner : ∀ frame ∈ frames, s.Inner frame)
    (message : String) :
    Proceeds body s ⟨s.engage w, .run (.panic message), frames ++ s.frame s.requested :: s.below⟩
      ⟨w, .run (.panic message), frames ++ s.frame s.driven :: s.below⟩ := by
  cases frames with
  | nil => exact .unwinds (.intro running message)
  | cons call frames =>
      obtain ⟨next, hnext, -⟩ := (inner call (List.mem_cons_self ..)).asker
      refine .on ?_ ?_ (.of_run running (.panic message)
        fun f hf => inner f (List.mem_cons_of_mem _ hf))
      · simp [Machine.step, Machine.stepRun, hnext, Machine.goto]
      · simp [Machine.step, Machine.stepRun, hnext, Machine.goto]

/-- A request that is answered at once has the same answer in both of them. -/
theorem proceeds_perform (running : s.Running w) (inner : ∀ frame ∈ frames, s.Inner frame)
    {request : Request K N V σ B} {next : request.Answer → Body K N V σ B}
    (keeps : Routine.KeepsTo s.context (.perform request next)) :
    Proceeds body s
      ⟨s.engage w, .run (.perform request next), frames ++ s.frame s.requested :: s.below⟩
      ⟨w, .run (.perform request next), frames ++ s.frame s.driven :: s.below⟩ := by
  cases keeps with
  | perform within unseen after =>
      have hengage : (s.engage w).answer request =
          (w.answer request).map fun p => (p.1, s.engage p.2) :=
        World.answer_adjust s.hidden w s.cache within unseen
      cases hanswer : w.answer request with
      | none =>
          refine .stuck ?_ ?_
          · simp [Machine.step, Machine.stepRun, hengage, hanswer]
          · simp [Machine.step, Machine.stepRun, hanswer]
      | some p =>
          refine .on ?_ ?_ (.of_run (running.answer within hanswer) (after p.1) inner)
          · simp [Machine.step, Machine.stepRun, hengage, hanswer, Machine.move]
          · simp [Machine.step, Machine.stepRun, hanswer, Machine.move]
  | @observe next same after =>
      have hsame : next (s.engage w) = next w :=
        same w (s.engage w) (World.sameContents_adjust s.hidden w s.cache)
      refine .on ?_ rfl (.of_run running (after w) inner)
      rw [← hsame]
      rfl

/-- A key that is requested in the context is answered, or the builder is called for it. -/
theorem proceeds_ask (running : s.Running w) (inner : ∀ frame ∈ frames, s.Inner frame)
    (builds : ∀ l, (body s.builder s.context l).KeepsTo s.context) (k : K)
    {next : Except RequestError (Option V) → Body K N V σ B}
    (keeps : ∀ answer, (next answer).KeepsTo s.context) :
    Proceeds body s
      ⟨s.engage w, .ask s.context k (.routine next), frames ++ s.frame s.requested :: s.below⟩
      ⟨w, .ask s.context k (.routine next), frames ++ s.frame s.driven :: s.below⟩ := by
  have hengage := s.lookup_engage w s.context k
  cases hlookup : w.lookup s.context k with
  | none =>
      refine .stuck ?_ ?_
      · simp [Machine.step_ask, hengage, hlookup]
      · simp [Machine.step_ask, hlookup]
  | some p =>
      obtain ⟨found, w'⟩ := p
      have hrunning := running.lookup hlookup
      cases found with
      | answered answer =>
          refine .on ?_ ?_ (.of_reply hrunning keeps inner k answer)
          · simp [Machine.step_ask, hengage, hlookup]
          · simp [Machine.step_ask, hlookup]
      | build b =>
          obtain rfl := running.builder_eq hlookup
          let call : Frame K N V σ B := ⟨s.context, k, s.thread, .routine next⟩
          have hinner : ∀ frame ∈ call :: frames, s.Inner frame := by
            intro frame hframe
            rcases List.mem_cons.1 hframe with rfl | hframe
            · exact ⟨rfl, rfl, next, rfl, keeps⟩
            · exact inner frame hframe
          refine .on ?_ ?_ (.of_run hrunning (builds k) hinner)
          · simp [Machine.step_ask, hengage, hlookup, thread_eq inner, call]
          · simp [Machine.step_ask, hlookup, thread_eq inner, call]

end PassPair.Running

/-- A step of one pass is a step of the other one. -/
theorem Parallel.step (h : Parallel s m m')
    (builds : ∀ k, (body s.builder s.context k).KeepsTo s.context) : Proceeds body s m m' := by
  obtain ⟨running, keeps, inner⟩ := h
  rename_i w focus frames
  cases focus with
  | run b =>
      cases b with
      | done r => exact running.proceeds_done inner r
      | panic message => exact running.proceeds_panic inner message
      | halt => exact .stuck rfl rfl
      | perform request next => exact running.proceeds_perform inner keeps
      | build x k next =>
          cases keeps with
          | build after => exact .on rfl rfl (.intro running ⟨rfl, after⟩ inner)
      | get c k next => cases keeps
      | race c k n next => cases keeps
  | ask x k asker =>
      cases asker with
      | routine next =>
          obtain ⟨rfl, after⟩ := keeps
          exact running.proceeds_ask inner builds k after
      | pass p receiver => exact keeps.elim
  | reply x k answer asker =>
      cases asker with
      | routine next => exact .on rfl rfl (.of_run running (keeps.2 answer) inner)
      | pass p receiver => exact keeps.elim
  | attempt p receiver => exact keeps.elim
  | deliver c k outcome receiver => exact keeps.elim
  | wake c k waiting outcomes next => exact keeps.elim

/-! ### To the end of the builder call -/

/-- The passes go on side by side no longer. -/
inductive Parted (body : B → ContextId → K → Body K N V σ B) (s : PassPair K N V σ B)
    (m m' : Machine K N V σ B) : Prop
  | replied (replied : Replied s m m')
  | unwinds (unwinding : Unwinding s m m')
  | stuck (parallel : Parallel s m m') (stays : m.step body = none) (stays' : m'.step body = none)

/-- Two runs that make the same calls. -/
structure Machine.Alike (body : B → ContextId → K → Body K N V σ B) (m m' : Machine K N V σ B)
    (ms ms' : List (Machine K N V σ B)) (n n' : Machine K N V σ B) : Prop where
  path : Path body m ms n
  path' : Path body m' ms' n'
  events : events ms = events ms'

/-- Two such runs after two others. -/
theorem Machine.Alike.trans {n n' o o' : Machine K N V σ B}
    {ms ms' ns ns' : List (Machine K N V σ B)} (h : Alike body m m' ms ms' n n')
    (h' : Alike body n n' ns ns' o o') : Alike body m m' (ms ++ ns) (ms' ++ ns') o o' where
  path := h.path.trans h'.path
  path' := h.path'.trans h'.path'
  events := by rw [events_append, events_append, h.events, h'.events]

/-- A step that the two passes make side by side. -/
theorem Parallel.alike {n n' : Machine K N V σ B} (h : Parallel s m m')
    (made : m.step body = some n) (made' : m'.step body = some n') :
    Machine.Alike body m m' [m] [m'] n n' where
  path := .one made
  path' := .one made'
  events := by rw [Machine.events_cons, Machine.events_cons, h.event_eq]

/-- The passes run side by side for as long as one likes, or until they part. -/
theorem Parallel.run (h : Parallel s m m')
    (builds : ∀ k, (body s.builder s.context k).KeepsTo s.context) (steps : ℕ) :
    ∃ ms ms' n n', Machine.Alike body m m' ms ms' n n' ∧
      (Parted body s n n' ∨ Parallel s n n' ∧ ms.length = steps ∧ ms'.length = steps) := by
  induction steps generalizing m m' with
  | zero => exact ⟨[], [], m, m', ⟨.here, .here, rfl⟩, Or.inr ⟨h, rfl, rfl⟩⟩
  | succ steps ih =>
      cases h.step builds with
      | on made made' parallel =>
          obtain ⟨ms, ms', o, o', halike, hend⟩ := ih parallel
          refine ⟨[m] ++ ms, [m'] ++ ms', o, o', (h.alike made made').trans halike, ?_⟩
          refine hend.imp_right fun ⟨hparallel, hms, hms'⟩ => ⟨hparallel, ?_, ?_⟩
          · rw [List.length_append, hms, List.length_singleton, Nat.add_comm]
          · rw [List.length_append, hms', List.length_singleton, Nat.add_comm]
      | replied made made' replied =>
          exact ⟨[m], [m'], _, _, h.alike made made', Or.inl (.replied replied)⟩
      | unwinds unwinding =>
          exact ⟨[], [], m, m', ⟨.here, .here, rfl⟩, Or.inl (.unwinds unwinding)⟩
      | stuck stays stays' =>
          exact ⟨[], [], m, m', ⟨.here, .here, rfl⟩, Or.inl (.stuck h stays stays')⟩

end Steps

end DerivationCache
