import DerivationCache.Proofs.InFlight
import DerivationCache.Proofs.SingleFlight

/-!
# Failed requests

A request for a derived value may be refused at once, its pass may fail, conflict or panic, and so
may the passes that are started in its place. Whatever has been derived by then, and at whatever
depth, was recorded in the context of a pass and nowhere else. So when the request ends without a
value, the caches are what they were, and the claim has been given back.

There is one trace that is meant to be left. If the builder of the requested key returns a failure,
and the cache remembers failures, then this failure is remembered for the key.

A `Derivation` is a request that has found its key underived and has claimed it, and what the caches
held then. `Derivation.Running` says what a machine may be doing from then on.

## Main results

* `Derivation.Running.step`: each step keeps the derivation running, or delivers an outcome.
* `Derivation.Running.path`: what the caches hold in the end.
* `failed_request_leaves_no_trace`: the same for every request.
-/

namespace DerivationCache

variable {K N V σ B : Type} [DecidableEq K] [DecidableEq N] [BEq V] [ToString K]

/-! ### Passes that fail -/

namespace Machine

variable {body : B → ContextId → K → Body K N V σ B} {m m' n : Machine K N V σ B}
  {ms : List (Machine K N V σ B)} {stack : List (Frame K N V σ B)} {c : CacheId} {k : K}
  {f : Failure}

/-- The builder that was called by a pass on this stack, for the key of the pass, returns this
failure. -/
def FailsPass (m : Machine K N V σ B) (stack : List (Frame K N V σ B)) (c : CacheId) (k : K)
    (f : Failure) : Prop :=
  m.focus = .run (.done (.error (.failure f))) ∧
    ∃ x thread p receiver, m.stack = ⟨x, k, thread, .pass p receiver⟩ :: stack ∧
      p.cache = c ∧ p.key = k

/-- A pass on this stack has just failed with this failure. -/
def FailedPass (m : Machine K N V σ B) (stack : List (Frame K N V σ B)) (c : CacheId) (k : K)
    (f : Failure) : Prop :=
  m.stack = stack ∧
    ∃ x p receiver, m.focus = .reply x k (.error (.failure f)) (.pass p receiver) ∧
      p.cache = c ∧ p.key = k

omit [DecidableEq K] [DecidableEq N] [BEq V] [ToString K] in
/-- A pass fails only where the request for its key is answered with an error. -/
theorem not_failedPass (h : ∀ x l e asker, m.focus ≠ .reply x l (.error e) asker) :
    ¬ m.FailedPass stack c k f := by
  rintro ⟨-, x, p, receiver, hfocus, -⟩
  exact h x k _ _ hfocus

omit [DecidableEq N] [BEq V] in
/-- A request within a pass that is answered at once is not answered with a failure. -/
theorem lookup_ne_failure {w w' : World K N V σ B} {x : ContextId} :
    w.lookup x k ≠ some (.answered (.error (.failure f)), w') := by
  intro h
  obtain ⟨v, hv⟩ := World.lookup_error h
  simp at hv

/-- A pass fails when its builder returns a failure, and at no other step. -/
theorem failedPass_iff (made : m.step body = some m') :
    m'.FailedPass stack c k f ↔ m.FailsPass stack c k f := by
  constructor
  · rintro ⟨hstack, x, p, receiver, hfocus, hc, hk⟩
    cases Transition.of_step made with
    | @returnError w frame rest e =>
        obtain ⟨y, l, thread, asker⟩ := frame
        obtain ⟨rfl, rfl, ⟨⟩, rfl⟩ := Focus.reply.inj hfocus
        obtain rfl : rest = stack := hstack
        exact ⟨rfl, _, thread, p, receiver, rfl, hc, hk⟩
    | returnRefused e => simp at hfocus
    | returnRecorded recorded => simp at hfocus
    | askAnswered answered =>
        obtain ⟨rfl, rfl, rfl, -⟩ := Focus.reply.inj hfocus
        exact absurd answered lookup_ne_failure
    | get idles reached => cases reached <;> simp at hfocus
    | wakeNext idles reached => cases reached <;> simp at hfocus
    | _ => simp at hfocus
  · rintro ⟨hfocus, x, thread, p, receiver, hstack, hc, hk⟩
    obtain ⟨w, focus, stack'⟩ := m
    obtain rfl : focus = _ := hfocus
    obtain rfl : stack' = _ := hstack
    obtain rfl := Option.some.inj made
    exact ⟨rfl, x, p, receiver, rfl, hc, hk⟩

/-- Whatever a path goes through is where it starts, or comes after another thing on the path. -/
theorem Path.pred (path : Path body m ms n) {o : Machine K N V σ B} (ho : o ∈ ms) :
    o = m ∨ ∃ i ∈ ms, i.step body = some o := by
  induction path with
  | here => simp at ho
  | @step m m₁ n ms made rest ih =>
      rcases List.mem_cons.1 ho with rfl | ho
      · exact Or.inl rfl
      · rcases ih ho with rfl | ⟨i, hi, hstep⟩
        · exact Or.inr ⟨m, List.mem_cons_self .., made⟩
        · exact Or.inr ⟨i, List.mem_cons_of_mem m hi, hstep⟩

/-- Whatever comes after it is where the path ends, or is something that it goes through. -/
theorem Path.succ (path : Path body m ms n) {o : Machine K N V σ B} (ho : o ∈ ms) :
    ∃ i, o.step body = some i ∧ (i ∈ ms ∨ i = n) := by
  induction path with
  | here => simp at ho
  | @step m m₁ n ms made rest ih =>
      rcases List.mem_cons.1 ho with rfl | ho
      · refine ⟨m₁, made, ?_⟩
        cases rest with
        | here => exact Or.inr rfl
        | step made' rest' => exact Or.inl (by simp)
      · obtain ⟨i, hstep, hi⟩ := ih ho
        exact ⟨i, hstep, hi.imp_left (List.mem_cons_of_mem m)⟩

/-- A pass has failed on the way if a builder has returned its failure on the way. -/
theorem Path.failedPass_iff (path : Path body m ms n) (hm : ¬ m.FailedPass stack c k f)
    (hn : ¬ n.FailedPass stack c k f) :
    (∃ o ∈ ms, o.FailedPass stack c k f) ↔ ∃ o ∈ ms, o.FailsPass stack c k f := by
  constructor
  · rintro ⟨o, ho, hfailed⟩
    rcases path.pred ho with rfl | ⟨i, hi, made⟩
    · exact absurd hfailed hm
    · exact ⟨i, hi, (Machine.failedPass_iff made).1 hfailed⟩
  · rintro ⟨o, ho, hfails⟩
    obtain ⟨i, made, hi⟩ := path.succ ho
    have hfailed := (Machine.failedPass_iff made).2 hfails
    rcases hi with hi | rfl
    · exact ⟨i, hi, hfailed⟩
    · exact absurd hfailed hn

end Machine

/-! ### A request that derives its key -/

/-- A request that has claimed its key, and what the caches held when it was made. -/
structure Derivation (K N V σ B : Type) [DecidableEq K] where
  cache : CacheId
  key : K
  thread : ThreadId
  receiver : Receiver K N V σ B
  stack : List (Frame K N V σ B)
  ledger : CacheId → Option (Cache K V σ B)
  /-- What the cache held that the key was requested from. -/
  found : Cache K V σ B
  ledger_cache : ledger cache = some found
  underived : found.Underived key

namespace Derivation

variable {body : B → ContextId → K → Body K N V σ B} {d : Derivation K N V σ B}
  {m m' n : Machine K N V σ B} {w : World K N V σ B} {s : PassSetting K V σ B}

/-- A pass of the request, with so many more that may be started. -/
def pass (d : Derivation K N V σ B) (left : Nat) : Pass K := ⟨d.cache, d.key, d.thread, left⟩

/-- What the caches hold while the key is claimed. -/
def claimed (d : Derivation K N V σ B) : CacheId → Option (Cache K V σ B) :=
  Function.update d.ledger d.cache (some (d.found.claimed d.key d.thread))

/-- What the caches hold after the request has ended without a value. -/
def after (d : Derivation K N V σ B) : Outcome V → CacheId → Option (Cache K V σ B)
  | .returned (.error e) => Function.update d.ledger d.cache (some (d.found.remember d.key e))
  | _ => d.ledger

/-- The setting is that of a pass of the request, and its builders are local. -/
structure Sets (body : B → ContextId → K → Body K N V σ B) (d : Derivation K N V σ B)
    (s : PassSetting K V σ B) : Prop where
  parent : s.parent = d.cache
  ledger : s.ledger = d.claimed
  builds : ∀ l, (body s.builder s.context l).Local s.context

/-- What a machine does until the request has its outcome. -/
inductive Running (body : B → ContextId → K → Body K N V σ B) (d : Derivation K N V σ B) :
    Machine K N V σ B → Prop
  | attempt {w : World K N V σ B} (left : Nat) (ledger : w.ledger = d.claimed) :
      Running body d ⟨w, .attempt (d.pass left) d.receiver, d.stack⟩
  | ask {w : World K N V σ B} {s : PassSetting K V σ B} (left : Nat) (sets : d.Sets body s)
      (inPass : w.InPass s .empty) :
      Running body d ⟨w, .ask s.context d.key (.pass (d.pass left) d.receiver), d.stack⟩
  | within {m : Machine K N V σ B} {s : PassSetting K V σ B} (left : Nat) (sets : d.Sets body s)
      (within : m.Within s d.key (.pass (d.pass left) d.receiver) d.stack) : Running body d m
  | done {m : Machine K N V σ B} {s : PassSetting K V σ B} (left : Nat) (sets : d.Sets body s)
      (done : m.Over s d.key (.pass (d.pass left) d.receiver) d.stack) : Running body d m

/-- The request has its outcome. If it is not a value, then the caches are as they were, but for a
failure that the pass may have failed with. -/
inductive Ended (d : Derivation K N V σ B) (m m' : Machine K N V σ B) : Prop
  | value (v : V) (w : World K N V σ B)
      (eq : m' = ⟨w, .deliver d.cache d.key (.returned (.ok v)) d.receiver, d.stack⟩)
  | failed (r : Outcome V) (w : World K N V σ B)
      (eq : m' = ⟨w, .deliver d.cache d.key r d.receiver, d.stack⟩) (ledger : w.ledger = d.after r)
      (failure : ∀ f, m.FailedPass d.stack d.cache d.key f ↔ r = .returned (.error (.failure f)))

omit [DecidableEq N] [BEq V] [ToString K] in
/-- The cache of such a pass is the one that was found, with the key claimed. -/
theorem Sets.cache (h : d.Sets body s) : s.cache = d.found.claimed d.key d.thread := by
  have hparent := s.ledger_parent
  rw [h.ledger, h.parent, claimed, Function.update_self] at hparent
  exact (Option.some.inj hparent).symm

omit [DecidableEq N] [BEq V] [ToString K] in
/-- This is what the caches hold there while the key is claimed. -/
theorem claimed_cache (d : Derivation K N V σ B) :
    d.claimed d.cache = some (d.found.claimed d.key d.thread) := Function.update_self ..

omit [DecidableEq N] [BEq V] [ToString K] in
/-- Giving the claim back undoes it, and a failure that is remembered meanwhile stays. -/
theorem release_remember (d : Derivation K N V σ B) (e : RequestError) :
    ((d.found.claimed d.key d.thread).remember d.key e).release d.key =
      d.found.remember d.key e := by
  rw [Cache.remember_claimed]
  refine Cache.release_claimed ?_ d.thread
  rw [Cache.remember_inFlight, d.underived.free]

omit [DecidableEq N] [BEq V] [ToString K] in
/-- Nothing but failures is remembered. -/
theorem after_eq {r : Outcome V} (d : Derivation K N V σ B)
    (hr : ∀ f, r ≠ .returned (.error (.failure f))) : d.after r = d.ledger := by
  have hfound : Function.update d.ledger d.cache (some d.found) = d.ledger := by
    rw [← d.ledger_cache, Function.update_eq_self]
  rcases r with (⟨v | f | key⟩ | v) | message
  · exact hfound
  · exact absurd rfl (hr f)
  · exact hfound
  · rfl
  · rfl

omit [DecidableEq N] [BEq V] [ToString K] in
/-- A failure is remembered if failures are, since none is for a key that is underived. -/
theorem after_failure (d : Derivation K N V σ B) (f : Failure) :
    d.after (.returned (.error (.failure f))) =
      if d.found.config.cachesFailures = true then Function.update d.ledger d.cache
        (some { d.found with failures := d.found.failures.insert d.key f })
      else d.ledger := by
  split
  · rename_i hcaches
    have hunmemoized : d.found.failures.contains d.key = false := by
      rw [Table.contains, d.underived.unmemoized hcaches, Option.isSome_none]
    simp only [after, Cache.remember, hcaches, hunmemoized]
    rfl
  · rename_i hcaches
    have hforgotten : d.found.remember d.key (.failure f) = d.found := by
      simp [Cache.remember, hcaches]
    rw [after, hforgotten, ← d.ledger_cache, Function.update_eq_self]

omit [DecidableEq N] [BEq V] [ToString K] in
/-- Giving the claim back undoes it. -/
theorem settled_ledger {r : Outcome V} (d : Derivation K N V σ B)
    (hr : ∀ f, r ≠ .returned (.error (.failure f))) :
    Function.update d.ledger d.cache (some ((d.found.claimed d.key d.thread).release d.key)) =
      d.after r := by
  rw [Cache.release_claimed d.underived.free, d.after_eq hr, ← d.ledger_cache,
    Function.update_eq_self]

omit [DecidableEq N] [BEq V] [ToString K] in
/-- The request ends with an outcome that is no value, and gives its claim back. -/
theorem settle {cache' : Cache K V σ B} (focus : Focus K N V σ B) (left : Nat) (r : Outcome V)
    (hledger : w.ledger = Function.update d.ledger d.cache (some cache'))
    (hafter : Function.update d.ledger d.cache (some (cache'.release d.key)) = d.after r) :
    ∃ w', (⟨w, focus, d.stack⟩ : Machine K N V σ B).settle (d.pass left) r d.receiver =
        some ⟨w', .deliver d.cache d.key r d.receiver, d.stack⟩ ∧ w'.ledger = d.after r := by
  have hcache : w.ledger (d.pass left).cache = some cache' := by
    rw [hledger]
    exact Function.update_self ..
  obtain ⟨w', hsettle, hw'⟩ :=
    World.InPass.settle hcache r d.receiver (⟨w, focus, d.stack⟩ : Machine K N V σ B) rfl
  refine ⟨w', hsettle, ?_⟩
  rw [hw', hledger, ← hafter]
  exact Function.update_idem ..

/-- A pass whose builder has failed ends the request, and the failure may be remembered. -/
theorem step_failed {left : Nat} {entries : Table K (Entry V)} (hsets : d.Sets body s)
    (inPass : w.InPass s entries) (e : RequestError)
    (made : (⟨w, .reply s.context d.key (.error e) (.pass (d.pass left) d.receiver), d.stack⟩ :
      Machine K N V σ B).step body = some m') :
    d.Ended ⟨w, .reply s.context d.key (.error e) (.pass (d.pass left) d.receiver), d.stack⟩
      m' := by
  have hp : (d.pass left).cache = s.parent := hsets.parent.symm
  obtain ⟨w', hstep, hw'⟩ := inPass.step_reply_fails body hp e d.receiver d.stack
  obtain rfl := Option.some.inj (made.symm.trans hstep)
  refine .failed (.returned (.error e)) w' rfl ?_ fun f => ⟨?_, ?_⟩
  · rw [hw', hsets.ledger, hsets.parent, hsets.cache]
    exact (Function.update_idem ..).trans
      (congrArg (fun c => Function.update d.ledger d.cache (some c)) (d.release_remember e))
  · rintro ⟨-, x, p, receiver, hfocus, -⟩
    obtain ⟨-, -, ⟨⟩, -⟩ := Focus.reply.inj hfocus
    rfl
  · rintro ⟨⟩
    exact ⟨rfl, s.context, d.pass left, d.receiver, rfl, rfl, rfl⟩

/-- A pass whose builder has returned a value ends the request, or is followed by the next pass. -/
theorem step_recorded {left : Nat} {entries : Table K (Entry V)} (hsets : d.Sets body s)
    (inPass : w.InPass s entries) (v : V)
    (made : (⟨w, .reply s.context d.key (.ok (some v)) (.pass (d.pass left) d.receiver), d.stack⟩ :
      Machine K N V σ B).step body = some m') :
    d.Running body m' ∨
      d.Ended ⟨w, .reply s.context d.key (.ok (some v)) (.pass (d.pass left) d.receiver), d.stack⟩
        m' := by
  have hledger : w.ledger = d.claimed := inPass.ledger.trans hsets.ledger
  rcases inPass.commit_cases with ⟨e, hcommit⟩ | ⟨w₁, hcommit⟩ | ⟨w₁, cache', hcommit, -⟩
  · simp only [Machine.step, Machine.stepReply, hcommit, bind, Option.bind_some] at made
    obtain ⟨w', hsettle, hw'⟩ := settle (.reply s.context d.key (.ok (some v))
      (.pass (d.pass left) d.receiver)) left (.returned (.error (.violation e))) hledger
      (d.settled_ledger (by simp))
    obtain rfl := Option.some.inj (made.symm.trans hsettle)
    exact Or.inr (.failed _ w' rfl hw' fun f =>
      ⟨fun h => absurd h (Machine.not_failedPass (by simp)), by simp⟩)
  · -- The pass has lost against what was published before, and the key was not.
    have hunchanged : w₁.ledger = d.claimed :=
      (World.commit_unchanged hcommit (by simp)).trans hledger
    obtain ⟨current, hcurrent, hsame⟩ :=
      World.cache_of_ledger ((congrFun hunchanged d.cache).trans d.claimed_cache)
    have hstore : current.store.get? d.key = none := by
      rw [← d.underived.unpublished]
      exact congrArg (fun c => c.store.get? d.key) hsame
    simp only [Machine.step, Machine.stepReply, hcommit, bind, Option.bind_some, pass, hcurrent,
      hstore] at made
    obtain rfl := Option.some.inj made
    exact Or.inl (.attempt left hunchanged)
  · simp only [Machine.step, Machine.stepReply, hcommit, bind, Option.bind_some] at made
    obtain ⟨w', -, rfl⟩ := Machine.settle_inv made
    exact Or.inr (.value v w' rfl)

/-- A pass that is over ends the request, or is followed by the next pass. -/
theorem step_over {left : Nat} (hsets : d.Sets body s)
    (hover : m.Over s d.key (.pass (d.pass left) d.receiver) d.stack)
    (made : m.step body = some m') :
    (d.Running body m' ∧ ∀ f, ¬ m.FailedPass d.stack d.cache d.key f) ∨ d.Ended m m' := by
  cases hover with
  | @panicked w entries thread message inPass =>
      obtain ⟨w', hsettle, hw'⟩ := settle (.run (.panic message)) left (.panicked message)
        (inPass.ledger.trans hsets.ledger) (d.settled_ledger (by simp))
      obtain rfl := Option.some.inj (made.symm.trans hsettle)
      exact Or.inr (.failed _ w' rfl hw' fun f =>
        ⟨fun h => absurd h (Machine.not_failedPass (by simp)), by simp⟩)
  | @replied w entries answer inPass recorded =>
      cases answer with
      | error e => exact Or.inr (step_failed hsets inPass e made)
      | ok v =>
          have hnext := step_recorded hsets inPass v made
          refine hnext.imp_left fun hrunning => ⟨hrunning, fun f => ?_⟩
          exact Machine.not_failedPass (by simp [Except.map])

/-- An attempt starts a pass, or gives up. -/
theorem step_attempt {left : Nat} (hlocal : d.found.BuildsLocally body)
    (hledger : w.ledger = d.claimed)
    (made : (⟨w, .attempt (d.pass left) d.receiver, d.stack⟩ : Machine K N V σ B).step body =
      some m') :
    d.Running body m' ∨ ∃ w', w'.ledger = d.ledger ∧ m' = ⟨w', .deliver d.cache d.key
      (.returned (.error (.conflict (toString d.key)))) d.receiver, d.stack⟩ := by
  have hcache : w.ledger (d.pass left).cache = some (d.found.claimed d.key d.thread) := by
    rw [hledger]
    exact d.claimed_cache
  cases left with
  | zero =>
      have hreleased := d.settled_ledger (r := .returned (.error (.conflict (toString d.key))))
        (by simp)
      obtain ⟨w', hsettle, hw'⟩ := settle (.attempt (d.pass 0) d.receiver) 0 _ hledger hreleased
      obtain rfl := Option.some.inj (made.symm.trans hsettle)
      exact Or.inr ⟨w', hw'.trans (d.after_eq (by simp)), rfl⟩
  | succ left =>
      obtain ⟨make, hmake⟩ := Option.isSome_iff_exists.1 d.underived.derivable
      obtain ⟨s, w', hopens, hopened, hs, hpass⟩ := Machine.step_attempt_opens body (k := d.key)
        hcache hmake d.thread left d.receiver d.stack
      obtain rfl := Option.some.inj (made.symm.trans hopens)
      obtain ⟨-, hbuilder⟩ := Machine.stepAttempt_inv (p := d.pass (left + 1)) hcache hopens
      obtain ⟨client, hclient⟩ := hbuilder _ hpass.context
      have hmade : s.builder = (make client).1 := by simpa [Cache.claimed, hmake] using hclient
      refine Or.inl (.ask left ⟨hopened.parent, hopened.ledger.trans hledger, fun l => ?_⟩ hpass)
      rw [hmade]
      exact hlocal make hmake client s.context l

/-- A step of a machine that derives the key. -/
theorem Running.step (h : d.Running body m) (hlocal : d.found.BuildsLocally body)
    (made : m.step body = some m') :
    (d.Running body m' ∧ ∀ f, ¬ m.FailedPass d.stack d.cache d.key f) ∨ d.Ended m m' := by
  cases h with
  | @attempt w left ledger =>
      have hnone (f : Failure) : ¬ (⟨w, .attempt (d.pass left) d.receiver, d.stack⟩ :
          Machine K N V σ B).FailedPass d.stack d.cache d.key f :=
        Machine.not_failedPass (by simp)
      rcases step_attempt hlocal ledger made with hrunning | ⟨w', hledger, rfl⟩
      · exact Or.inl ⟨hrunning, hnone⟩
      · refine Or.inr (.failed _ w' rfl (hledger.trans (d.after_eq (by simp)).symm) fun f => ?_)
        exact ⟨fun h => absurd h (hnone f), by simp⟩
  | @ask w s left sets inPass =>
      have howns : s.cache.owns d.key = true := by
        rw [sets.cache]
        exact d.underived.owns
      have hunpublished : s.cache.store.get? d.key = none := by
        rw [sets.cache]
        exact d.underived.unpublished
      obtain ⟨t, w', hasks, hpass, -, -⟩ := inPass.ask_unseen body howns hunpublished
        (Table.get?_empty d.key) (.pass (d.pass left) d.receiver) d.stack
      obtain rfl := Option.some.inj (made.symm.trans hasks)
      exact Or.inl ⟨.within left sets (.intro [] t hpass (sets.builds d.key) (by simp)),
        fun f => Machine.not_failedPass (by simp)⟩
  | within left sets within =>
      have hnone (f : Failure) : ¬ m.FailedPass d.stack d.cache d.key f :=
        fun h => within.stack_ne h.1
      rcases within.step sets.builds made with hover | hwithin | hover
      · exact step_over sets hover made
      · exact Or.inl ⟨.within left sets hwithin, hnone⟩
      · exact Or.inl ⟨.done left sets hover, hnone⟩
  | done left sets done => exact step_over sets done made

omit [DecidableEq N] [BEq V] [ToString K] in
/-- As long as the derivation goes on, no outcome is delivered. -/
theorem Running.not_deliver (h : d.Running body m) (c : CacheId) (l : K) (r : Outcome V)
    (receiver : Receiver K N V σ B) : m.focus ≠ .deliver c l r receiver := by
  cases h with
  | attempt left ledger => simp
  | ask left sets inPass => simp
  | within left sets within => exact within.not_deliver c l r receiver
  | done left sets done => exact done.not_deliver c l r receiver

/-- The request ends without a value. -/
theorem Running.path {ms : List (Machine K N V σ B)} {r : Outcome V} (h : d.Running body m)
    (hlocal : d.found.BuildsLocally body) (path : Machine.Path body m ms n)
    (hn : n = ⟨w, .deliver d.cache d.key r d.receiver, d.stack⟩)
    (first : ∀ o ∈ ms, o.stack = d.stack → ∀ r receiver,
      o.focus ≠ .deliver d.cache d.key r receiver)
    (failed : ∀ v, r ≠ .returned (.ok v)) :
    w.ledger = d.after r ∧ ∀ f, (∃ o ∈ ms, o.FailedPass d.stack d.cache d.key f) ↔
      r = .returned (.error (.failure f)) := by
  induction path with
  | here => exact absurd (congrArg Machine.focus hn) (h.not_deliver _ _ _ _)
  | @step m m₁ n ms made rest ih =>
      have first' := fun o ho => first o (List.mem_cons_of_mem m ho)
      rcases h.step hlocal made with ⟨hrunning, hnone⟩ | hended
      · obtain ⟨hledger, hfailed⟩ := ih hrunning hn first'
        refine ⟨hledger, fun f => ?_⟩
        rw [← hfailed]
        simp [hnone f]
      · -- Whatever the step has delivered is what the path ends with.
        have hlast {r' : Outcome V} {w' : World K N V σ B}
            (heq : m₁ = ⟨w', .deliver d.cache d.key r' d.receiver, d.stack⟩) :
            w' = w ∧ r' = r ∧ ms = [] := by
          cases rest with
          | here =>
              obtain ⟨rfl, hfocus, -⟩ := Machine.mk.inj (heq.symm.trans hn)
              obtain ⟨-, -, rfl, -⟩ := Focus.deliver.inj hfocus
              exact ⟨rfl, rfl, rfl⟩
          | step made' rest' =>
              refine absurd (congrArg Machine.focus heq) (first' m₁ (by simp) ?_ r' d.receiver)
              exact congrArg Machine.stack heq
        cases hended with
        | value v w' eq =>
            obtain ⟨-, rfl, -⟩ := hlast eq
            exact absurd rfl (failed v)
        | failed r' w' eq ledger failure =>
            obtain ⟨rfl, rfl, rfl⟩ := hlast eq
            exact ⟨ledger, fun f => by simpa using failure f⟩

end Derivation

/-! ### Every request -/

namespace Machine

variable {body : B → ContextId → K → Body K N V σ B} {w : World K N V σ B} {m' : Machine K N V σ B}
  {stack : List (Frame K N V σ B)} {c : CacheId} {k : K} {cache : Cache K V σ B}
  {next : Except RequestError V → Body K N V σ B}

/-- A request is answered at once, and only counted, or claims its key because it is underived. -/
theorem get_starts (hcache : w.cache? c = some cache)
    (made : (⟨w, .run (.get c k next), stack⟩ : Machine K N V σ B).step body = some m') :
    (∃ w' r, m' = ⟨w', .deliver c k r (.caller next), stack⟩ ∧ w'.ledger = w.ledger) ∨
      ∃ d : Derivation K N V σ B, d.Running body m' ∧ d.cache = c ∧ d.key = k ∧
        d.receiver = .caller next ∧ d.stack = stack ∧ d.ledger = w.ledger ∧
        d.found = cache.resetCounters := by
  by_cases hk : cache.Underived k
  · obtain ⟨w', thread, hstep, hledger, -⟩ := step_get_claims body hcache hk next stack
    obtain rfl := Option.some.inj (made.symm.trans hstep)
    let d : Derivation K N V σ B :=
      { cache := c, key := k, thread, receiver := .caller next, stack, ledger := w.ledger
        found := cache.resetCounters, ledger_cache := World.ledger_of_cache? hcache
        underived := hk.congr rfl }
    exact Or.inr ⟨d, .attempt (d := d) passLimit hledger, rfl, rfl, rfl, rfl, rfl, rfl⟩
  · refine Or.inl ?_
    obtain ⟨hreads, hsame⟩ := cache.request_reads k
    have hledger : (w.setCache c (cache.request k).2).ledger = w.ledger :=
      World.ledger_setCache_of_eq hcache hsame
    rw [step_get hcache rfl] at made
    generalize (cache.request k).1 = answer at made hreads
    cases answer with
    | some r =>
        obtain rfl := Option.some.inj made
        exact ⟨_, _, rfl, hledger⟩
    | none =>
        cases hreads with
        | missed owns unpublished unreplayable builder =>
            obtain ⟨hstack, ⟨r, hfocus, -, hkept, -⟩ | ⟨-, hfree, -⟩⟩ := claim_posts made
            · obtain ⟨w', focus, stack'⟩ := m'
              obtain rfl : focus = _ := hfocus
              obtain rfl : stack' = stack := hstack
              exact ⟨w', r, rfl, hkept.trans hledger⟩
            · have hholder : w.holder c k = none := by
                rw [← World.holder_of_account (World.account_of_ledger hledger c k)]
                exact hfree
              rw [World.holder, World.account_of_cache? hcache] at hholder
              refine absurd ⟨owns, unpublished, fun hcaches => ?_, hholder, builder⟩ hk
              rwa [Cache.replayable, if_pos hcaches] at unreplayable

/-- A request that ends without a value leaves the caches as they were, or a pass of it has failed
with the failure that it ends with. -/
theorem get_ends {w' : World K N V σ B} {r : Outcome V} {ms : List (Machine K N V σ B)}
    (hcache : w.cache? c = some cache) (hlocal : cache.BuildsLocally body)
    (path : Path body ⟨w, .run (.get c k next), stack⟩ ms
      ⟨w', .deliver c k r (.caller next), stack⟩)
    (first : ∀ o ∈ ms, o.stack = stack → ∀ r receiver, o.focus ≠ .deliver c k r receiver)
    (failed : ∀ v, r ≠ .returned (.ok v)) :
    (w'.ledger = w.ledger ∧ ∀ f, ¬ ∃ o ∈ ms, o.FailedPass stack c k f) ∨
      ∃ f, r = .returned (.error (.failure f)) ∧ (∃ o ∈ ms, o.FailedPass stack c k f) ∧
        cache.Underived k ∧ w'.ledger = if cache.config.cachesFailures = true then
          Function.update w.ledger c
            (some { cache.resetCounters with failures := cache.failures.insert k f })
          else w.ledger := by
  have hstart (f : Failure) : ¬ (⟨w, .run (.get c k next), stack⟩ :
      Machine K N V σ B).FailedPass stack c k f := not_failedPass (by simp)
  cases path with
  | @step _ m₁ _ ms made rest =>
      have first' := fun o ho => first o (List.mem_cons_of_mem _ ho)
      rcases get_starts hcache made with ⟨w₁, r₁, rfl, hledger⟩ |
        ⟨d, hrunning, rfl, rfl, hreceiver, rfl, hd, hfound⟩
      · cases rest with
        | here => exact Or.inl ⟨hledger, fun f => by simp [hstart f]⟩
        | step made' rest' =>
            exact absurd rfl (first' _ (List.mem_cons_self ..) rfl r₁ (.caller next))
      · obtain ⟨hledger, hfailed⟩ := hrunning.path (by rw [hfound]; exact hlocal) rest
          (by rw [hreceiver]) first' failed
        by_cases hr : ∃ f, r = .returned (.error (.failure f))
        · obtain ⟨f, rfl⟩ := hr
          obtain ⟨o, ho, hpassed⟩ := (hfailed f).2 rfl
          have hk : cache.resetCounters.Underived d.key := hfound ▸ d.underived
          refine Or.inr ⟨f, rfl, ⟨o, List.mem_cons_of_mem _ ho, hpassed⟩, hk.congr rfl, ?_⟩
          rw [hledger, d.after_failure, hfound, hd]
          rfl
        · rw [not_exists] at hr
          refine Or.inl ⟨hledger.trans ((d.after_eq hr).trans hd), ?_⟩
          rintro f ⟨o, ho, hpassed⟩
          rcases List.mem_cons.1 ho with rfl | ho
          · exact hstart f hpassed
          · exact hr f ((hfailed f).1 ⟨o, ho, hpassed⟩)

end Machine

/-- A request for a derived value ends without a value: it is refused, its builder fails, a commit
is refused, all its passes conflict, or a panic unwinds it. The builders act on their contexts
alone.

Then all caches hold what they held before, with one exception: if the cache remembers failures, and
the builder of a pass of this request has returned a failure, then this failure is what the request
ends with, and it is remembered for the key. -/
theorem failed_request_leaves_no_trace {body : B → ContextId → K → Body K N V σ B}
    {w w' : World K N V σ B} {stack : List (Frame K N V σ B)} {c : CacheId} {k : K}
    {cache : Cache K V σ B} {next : Except RequestError V → Body K N V σ B} {r : Outcome V}
    {ms : List (Machine K N V σ B)} (hcache : w.cache? c = some cache)
    (hlocal : cache.BuildsLocally body)
    (path : Machine.Path body ⟨w, .run (.get c k next), stack⟩ ms
      ⟨w', .deliver c k r (.caller next), stack⟩)
    (first : ∀ o ∈ ms, o.stack = stack → ∀ r receiver, o.focus ≠ .deliver c k r receiver)
    (failed : ∀ v, r ≠ .returned (.ok v)) :
    (w'.ledger = w.ledger ∧ ¬ (cache.config.cachesFailures = true ∧
        ∃ f, ∃ o ∈ ms, o.FailsPass stack c k f)) ∨
      ∃ f, cache.config.cachesFailures = true ∧ (∃ o ∈ ms, o.FailsPass stack c k f) ∧
        r = .returned (.error (.failure f)) ∧ w.remembered c k = none ∧
        w'.ledger = Function.update w.ledger c
          (some { cache.resetCounters with failures := cache.failures.insert k f }) := by
  have hfails (f : Failure) : (∃ o ∈ ms, o.FailedPass stack c k f) ↔
      ∃ o ∈ ms, o.FailsPass stack c k f :=
    path.failedPass_iff (Machine.not_failedPass (by simp)) (Machine.not_failedPass (by simp))
  simp only [← hfails]
  rcases Machine.get_ends hcache hlocal path first failed with ⟨hledger, hnone⟩ |
    ⟨f, hr, hfailed, hk, hledger⟩
  · exact Or.inl ⟨hledger, fun ⟨_, f, hf⟩ => hnone f hf⟩
  · by_cases hcaches : cache.config.cachesFailures = true
    · rw [if_pos hcaches] at hledger
      refine Or.inr ⟨f, hcaches, hfailed, hr, ?_, hledger⟩
      rw [World.remembered_of_cache? hcache, hk.unmemoized hcaches]
    · rw [if_neg hcaches] at hledger
      exact Or.inl ⟨hledger, fun h => hcaches h.1⟩

/-! ### A builder that fails after what it needed has been derived -/

namespace FailsAfterDependency

/-- What the builder of key 1 reports. -/
def failure : Failure := ⟨.counted 1, "late"⟩

/-- The builder of key 1 derives key 2 first. -/
def body (_ : Unit) (x : ContextId) : Nat → Body Nat Unit Nat Unit Unit
  | 1 => .build x 2 fun _ => .done (.error (.failure failure))
  | k => .done (.ok (10 * k))

/-- Key 9 has been published before. -/
def cache : Cache Nat Nat Unit Unit where
  config := { makeBuilder := some fun client => ((), client), cachesFailures := true }
  store := Table.empty.insert 9 90

/-- The cache alone. -/
def world : World Nat Unit Nat Unit Unit := { caches := #[cache], client := () }

/-- Key 1 is requested. -/
def requested : Machine Nat Unit Nat Unit Unit := .start world (.get ⟨0⟩ 1 .done)

/-- The machine is about to deliver an outcome. -/
def delivers (m : Machine Nat Unit Nat Unit Unit) : Bool :=
  match m.focus with
  | .deliver .. => true
  | _ => false

/-- The builders leave everything outside of their pass alone. -/
theorem cache_buildsLocally : cache.BuildsLocally body := by
  intro make hmake client x k
  unfold body
  split
  · exact .build fun _ => .done _
  · exact .done _

/-- Key 1 ends with its failure, which is remembered. Key 2 has been derived on the way, and nothing
is left of it. -/
theorem requested_leaves_no_trace :
    ∃ w' ms, Machine.Path body requested ms
        ⟨w', .deliver ⟨0⟩ 1 (.returned (.error (.failure failure))) (.caller .done), []⟩ ∧
      (∃ o ∈ ms, o.world.keyState ⟨0⟩ 2 = some (.resolved 20)) ∧
      w'.stored ⟨0⟩ 2 = none ∧ w'.stored ⟨0⟩ 9 = some 90 ∧ w'.holder ⟨0⟩ 1 = none ∧
      w'.remembered ⟨0⟩ 1 = some failure := by
  have hruns : ∀ i < 9, ((Machine.run body i requested).step body).isSome =
      true := by
    decide +kernel
  have hquiet : ∀ i < 9, delivers (Machine.run body i requested) = false := by
    decide +kernel
  obtain ⟨ms, hpath, hms⟩ := Machine.Path.of_run hruns
  have hend : Machine.run body 9 requested =
      ⟨(Machine.run body 9 requested).world,
        .deliver ⟨0⟩ 1 (.returned (.error (.failure failure))) (.caller .done), []⟩ := rfl
  have hderived : ∃ o ∈ ms, o.world.keyState ⟨0⟩ 2 = some (.resolved 20) :=
    ⟨_, (hms _).2 ⟨6, by decide, rfl⟩, rfl⟩
  have first : ∀ o ∈ ms, o.stack = [] → ∀ r receiver, o.focus ≠ .deliver ⟨0⟩ 1 r receiver := by
    intro o ho _ r receiver hfocus
    obtain ⟨i, hi, rfl⟩ := (hms o).1 ho
    have hfalse := hquiet i hi
    simp [delivers, hfocus] at hfalse
  rw [hend] at hpath
  refine ⟨_, ms, hpath, hderived, ?_⟩
  rcases failed_request_leaves_no_trace (show world.cache? ⟨0⟩ = some cache from rfl)
    cache_buildsLocally hpath first (by simp) with ⟨-, hnone⟩ | ⟨f, -, -, hr, -, hledger⟩
  · -- The builder of key 1 has failed right before the pass has.
    refine absurd ⟨rfl, failure, _, (hms _).2 ⟨7, by decide, rfl⟩, ?_⟩ hnone
    exact ⟨rfl, _, _, _, _, rfl, rfl, rfl⟩
  · obtain rfl : failure = f := by simpa using hr
    have hcache : (Machine.run body 9 requested).world.ledger ⟨0⟩ =
        some { cache.resetCounters with
          failures := cache.failures.insert 1 failure } := by
      rw [hledger, Function.update_self]
    rw [World.stored_eq_ledger, World.stored_eq_ledger, World.holder, World.account_eq_ledger,
      World.remembered_eq_ledger, hcache]
    exact ⟨rfl, rfl, rfl, rfl⟩

end FailsAfterDependency

end DerivationCache
