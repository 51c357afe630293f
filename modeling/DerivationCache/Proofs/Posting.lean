import DerivationCache.Proofs.Account
import DerivationCache.Proofs.Path

/-!
# Postings

`Transition` says what a step does to published values and to the contexts of passes, and passes
over the rest as bookkeeping. A `Posting` is the other side of a step: what it does to the accounts
of keys, to the claims that the machine holds (`Machine.held`), and to the threads that wait for
their turn (`Machine.waiting`).

The claims held by a machine are those of the requests that are deriving a key, innermost first. A
step takes one claim more, or gives the innermost one back, or leaves all claims as they are. All
three are seen in the accounts at the same step.

## Main results

* `Machine.claim_posts`, `Machine.requestAll_posts`: what requests do to accounts.
* `Posting.of_step`: every step is a posting.
-/

namespace DerivationCache

variable {K N V σ B : Type}

/-! ### What a machine holds -/

/-- The claim of a pass: which key of which cache it holds, on which thread. -/
def Pass.claim (p : Pass K) : CacheId × K × ThreadId := (p.cache, p.key, p.thread)

/-- The pass that waits for an answer, if it is not a routine that does. -/
def Asker.passes : Asker K N V σ B → List (Pass K)
  | .routine _ => []
  | .pass p _ => [p]

/-- The pass that is running at this moment, if there is one. -/
def Focus.passes : Focus K N V σ B → List (Pass K)
  | .ask _ _ asker => asker.passes
  | .reply _ _ _ asker => asker.passes
  | .attempt p _ => [p]
  | _ => []

/-- The other threads of a crowd, which wait for their turn. -/
def Receiver.waiting : Receiver K N V σ B → List ThreadId
  | .caller _ => []
  | .crowd waiting _ _ => waiting

/-- The threads that wait until a pass has its answer. -/
def Asker.waiting : Asker K N V σ B → List ThreadId
  | .routine _ => []
  | .pass _ receiver => receiver.waiting

/-- The threads that wait for their turn at this moment. -/
def Focus.waiting : Focus K N V σ B → List ThreadId
  | .run _ => []
  | .ask _ _ asker => asker.waiting
  | .reply _ _ _ asker => asker.waiting
  | .attempt _ receiver => receiver.waiting
  | .deliver _ _ _ receiver => receiver.waiting
  | .wake _ _ waiting _ _ => waiting

namespace Machine

/-- The passes that are running, innermost first. -/
def passes (m : Machine K N V σ B) : List (Pass K) :=
  m.focus.passes ++ m.stack.flatMap fun frame => frame.asker.passes

/-- The claims of the requests that are deriving a key, innermost first. -/
def held (m : Machine K N V σ B) : List (CacheId × K × ThreadId) := m.passes.map Pass.claim

/-- The threads that have missed a key and have not reached for it yet. -/
def waiting (m : Machine K N V σ B) : List ThreadId :=
  m.focus.waiting ++ m.stack.flatMap fun frame => frame.asker.waiting

/-- Only a pass that is running can be started anew. -/
theorem startsPass_of_passes_eq_nil {m : Machine K N V σ B} (h : m.focus.passes = []) :
    m.startsPass = false := by
  obtain ⟨w, focus, stack⟩ := m
  cases focus with
  | attempt p receiver => simp [Focus.passes] at h
  | _ => rfl

/-- A thread requests a derived value: the running routine asks for one, or the next of several
threads that have missed it wakes up. -/
inductive AsksFor (m : Machine K N V σ B) (c : CacheId) (k : K) :
    ThreadId → Receiver K N V σ B → Prop
  | get (next : Except RequestError V → Body K N V σ B) (focus : m.focus = .run (.get c k next)) :
      AsksFor m c k m.thread (.caller next)
  | wake (thread : ThreadId) (waiting : List ThreadId) (outcomes : List (Outcome V))
      (next : List (Outcome V) → Body K N V σ B)
      (focus : m.focus = .wake c k (thread :: waiting) outcomes next) :
      AsksFor m c k thread (.crowd waiting outcomes next)

namespace AsksFor

variable {m m' : Machine K N V σ B} {c : CacheId} {k : K} {thread : ThreadId}
  {receiver : Receiver K N V σ B} (h : m.AsksFor c k thread receiver)

include h

/-- Whoever requests a derived value is not deriving one itself. -/
theorem passes_eq_nil : m.focus.passes = [] := by
  cases h with
  | get next hfocus => rw [hfocus]; rfl
  | wake thread waiting outcomes next hfocus => rw [hfocus]; rfl

/-- A thread that reaches for its key does not wait for its turn any longer, if it did. -/
theorem waiting_eq : (thread = m.thread ∧ m.focus.waiting = receiver.waiting) ∨
    m.focus.waiting = thread :: receiver.waiting := by
  cases h with
  | get next hfocus => exact Or.inl ⟨rfl, by rw [hfocus]; rfl⟩
  | wake thread waiting outcomes next hfocus => exact Or.inr (by rw [hfocus]; rfl)

/-- Whoever requests one derived value does not start a race. -/
theorem not_race (d : CacheId) (l : K) (n : Nat) (next : List (Outcome V) → Body K N V σ B) :
    m.focus ≠ .run (.race d l n next) := by
  cases h with
  | get next hfocus => simp [hfocus]
  | wake thread waiting outcomes next hfocus => simp [hfocus]

/-- A claim that is taken comes before those that are held already. -/
theorem held_of_attempt {left : Nat} (hfocus : m'.focus = .attempt ⟨c, k, thread, left⟩ receiver)
    (hstack : m'.stack = m.stack) : m'.held = (c, k, thread) :: m.held := by
  rw [Machine.held, passes, hfocus, hstack, Machine.held, passes, h.passes_eq_nil]
  rfl

/-- When a pass is started, the thread that it belongs to is the running one, or waits no longer. -/
theorem waiting_of_attempt {p : Pass K} (hfocus : m'.focus = .attempt p receiver)
    (hstack : m'.stack = m.stack) :
    (thread = m.thread ∧ m'.waiting = m.waiting) ∨ m.waiting = thread :: m'.waiting := by
  rw [Machine.waiting, hfocus, hstack, Machine.waiting]
  rcases h.waiting_eq with ⟨hthread, hwaiting⟩ | hwaiting
  · exact Or.inl ⟨hthread, by rw [hwaiting]; rfl⟩
  · exact Or.inr (by rw [hwaiting]; rfl)

end AsksFor

/-- The step from the first machine to the second one ends a request for the key with this outcome,
on the thread that made it, or on one of several. -/
inductive Ends (m m' : Machine K N V σ B) (c : CacheId) (k : K) (outcome : Outcome V) : Prop
  | delivered (receiver : Receiver K N V σ B) (focus : m'.focus = .deliver c k outcome receiver)
  | raced (n : Nat) (next : List (Outcome V) → Body K N V σ B) (waiting : List ThreadId)
      (outcomes : List (Outcome V)) (before : m.focus = .run (.race c k n next))
      (after : m'.focus = .wake c k waiting outcomes next) (mem : outcome ∈ outcomes)

/-- Nothing is delivered, and no threads are started. -/
theorem not_ends {m m' : Machine K N V σ B} (hdeliver : ∀ c k r receiver,
    m'.focus ≠ .deliver c k r receiver) (hrace : ∀ c k n next, m.focus ≠ .run (.race c k n next))
    (c : CacheId) (k : K) (r : Outcome V) : ¬ m.Ends m' c k r := by
  rintro (⟨receiver, hfocus⟩ | ⟨n, next, waiting, outcomes, hbefore, -, -⟩)
  · exact hdeliver c k r receiver hfocus
  · exact hrace c k n next hbefore

end Machine

/-! ### Postings -/

namespace World

variable [DecidableEq K]

/-- What a cache answers a request with, while nobody derives the key for it: the published value,
the remembered failure, or a refusal. -/
inductive Answers (w : World K N V σ B) (c : CacheId) (k : K) : Outcome V → Prop
  | published (v : V) (stored : w.stored c k = some v) : Answers w c k (.returned (.ok v))
  | replayed (f : Failure) (unpublished : w.stored c k = none)
      (replayable : w.replayable c k = some f) : Answers w c k (.returned (.error (.failure f)))
  | refused (e : Violation) : Answers w c k (.returned (.error (.violation e)))

/-- What a request is answered at once is what the world has on record for the key. -/
theorem Answers.of_reads [ToString K] {w : World K N V σ B} {c : CacheId} {cache : Cache K V σ B}
    {k : K} {a : Except RequestError V} (hcache : w.cache? c = some cache)
    (h : cache.Reads k (some a)) : w.Answers c k (.returned a) := by
  cases h with
  | foreign foreign => exact .refused _
  | published v stored => exact .published v (by rw [stored_of_cache? hcache, stored])
  | replayed f unpublished replayable =>
      refine .replayed f (by rw [stored_of_cache? hcache, unpublished]) ?_
      rw [World.replayable, hcache]
      exact replayable
  | readOnly builder => exact .refused _

/-- One account is changed, and no thread is started. -/
structure Updates (w w' : World K N V σ B) (c : CacheId) (k : K)
    (change : Account V → Account V) : Prop where
  accounts : ∀ d l, w'.account d l = if d = c ∧ l = k then change (w.account d l) else w.account d l
  threads : w'.threads = w.threads

/-- A cache is replaced by one in which a single account differs. -/
theorem Updates.setCache {w : World K N V σ B} {c : CacheId} {old cache : Cache K V σ B} {k : K}
    {change : Account V → Account V} (h : w.cache? c = some old)
    (hchange : ∀ l, cache.account l = if l = k then change (old.account l) else old.account l) :
    w.Updates (w.setCache c cache) c k change where
  accounts d l := by
    rw [account_setCache h]
    by_cases hdc : d = c
    · subst hdc
      simp [hchange, account_of_cache? h]
    · simp [hdc]
  threads := rfl

/-- A field that the change leaves alone. -/
theorem Updates.field {w w' : World K N V σ B} {c : CacheId} {k : K}
    {change : Account V → Account V} (h : w.Updates w' c k change) {α : Type}
    (field : Account V → α) (hkeeps : ∀ a, field (change a) = field a) (d : CacheId) (l : K) :
    field (w'.account d l) = field (w.account d l) := by
  rw [h.accounts, apply_ite field, hkeeps, ite_self]

/-- The holder of the claim after a change that says who it is. -/
theorem Updates.holder {w w' : World K N V σ B} {c : CacheId} {k : K}
    {change : Account V → Account V} (h : w.Updates w' c k change) {holder : Option ThreadId}
    (hchange : ∀ a, (change a).holder = holder) (d : CacheId) (l : K) :
    w'.holder d l = if d = c ∧ l = k then holder else w.holder d l := by
  rw [World.holder, h.accounts, apply_ite Account.holder, hchange]
  rfl

end World

section Postings

variable [DecidableEq K]

/-- What a step does to accounts, claims and waiting threads. -/
inductive Posting (m m' : Machine K N V σ B) : Prop
  /-- No account is changed. A request may come to an outcome without a claim. -/
  | kept (accounts : ∀ c k, m'.world.account c k = m.world.account c k)
      (threads : m'.world.threads = m.world.threads) (held : m'.held = m.held)
      (waiting : m'.waiting <:+ m.waiting)
      (unclaimed : ∀ c k r receiver, m'.focus = .deliver c k r receiver →
        ∃ thread, m.AsksFor c k thread receiver)
      (answers : ∀ c k r, m.Ends m' c k r → m.world.Answers c k r)
  /-- Threads are started, and some of them have to wait. -/
  | raced {c : CacheId} {k : K} (n : Nat) (fresh : List ThreadId) (outcomes : List (Outcome V))
      (next : List (Outcome V) → Body K N V σ B)
      (accounts : ∀ c k, m'.world.account c k = m.world.account c k)
      (threads : m'.world.threads = m.world.threads + n) (held : m'.held = m.held)
      (started : fresh.Sublist ((List.range n).map fun i => ⟨m.world.threads + i⟩))
      (before : m.focus = .run (.race c k n next))
      (after : m'.focus = .wake c k fresh outcomes next)
      (waiting : m'.waiting = fresh ++ m.waiting)
      (answers : ∀ c k r, m.Ends m' c k r → m.world.Answers c k r)
  /-- A routine publishes values, or does what is not seen in accounts. -/
  | filled (fills : m.world.Fills m'.world) (held : m'.held = m.held)
      (waiting : m'.waiting = m.waiting) (quiet : ∀ c k r, ¬ m.Ends m' c k r)
  /-- A routine has the failures of a cache forgotten. -/
  | forgot (c : CacheId) (next : Unit → Body K N V σ B)
      (focus : m.focus = .run (.perform (.clearFailures c) next))
      (accounts : ∀ d k, m'.world.account d k =
        if d = c then { m.world.account d k with failure := none } else m.world.account d k)
      (threads : m'.world.threads = m.world.threads) (held : m'.held = m.held)
      (waiting : m'.waiting = m.waiting) (quiet : ∀ c k r, ¬ m.Ends m' c k r)
  /-- A thread claims a free key that has neither a value nor a failure to replay. -/
  | claimed (c : CacheId) (k : K) (thread : ThreadId) (receiver : Receiver K N V σ B)
      (request : m.AsksFor c k thread receiver) (free : m.world.holder c k = none)
      (unpublished : m.world.stored c k = none) (unreplayable : m.world.replayable c k = none)
      (updates : m.world.Updates m'.world c k ({ · with holder := some thread }))
      (focus : m'.focus = .attempt ⟨c, k, thread, passLimit⟩ receiver) (stack : m'.stack = m.stack)
  /-- The innermost pass ends with another outcome than a failure, and gives its claim back. -/
  | settled (w : World K N V σ B) (p : Pass K) (outcome : Outcome V)
      (receiver : Receiver K N V σ B) (fills : m.world.Fills w)
      (updates : w.Updates m'.world p.cache p.key ({ · with holder := none }))
      (focus : m'.focus = .deliver p.cache p.key outcome receiver)
      (held : m.held = p.claim :: m'.held) (waiting : m'.waiting = m.waiting)
      (unfailed : ∀ f, outcome ≠ .returned (.error (.failure f)))
  /-- The innermost pass ends with a failure, which is remembered if it is the first one and the
  cache remembers failures, and gives its claim back. -/
  | failed (x : ContextId) (l : K) (f : Failure) (p : Pass K) (receiver : Receiver K N V σ B)
      (memo : Option Failure)
      (reply : m.focus = .reply x l (.error (.failure f)) (.pass p receiver))
      (focus : m'.focus = .deliver p.cache p.key (.returned (.error (.failure f))) receiver)
      (remembers : ∀ g, memo = some g ↔ m.world.remembered p.cache p.key = some g ∨
        (m.world.Caches p.cache ∧ m.world.remembered p.cache p.key = none ∧ g = f))
      (updates : m.world.Updates m'.world p.cache p.key
        ({ · with failure := memo, holder := none }))
      (held : m.held = p.claim :: m'.held) (waiting : m'.waiting = m.waiting)

variable [DecidableEq N] [BEq V] [ToString K] {body : B → ContextId → K → Body K N V σ B}

/-! ### Every step is a posting -/

namespace Machine

variable {m m' : Machine K N V σ B} {w : World K N V σ B} {stack : List (Frame K N V σ B)}

omit [DecidableEq N] [BEq V] in
/-- A thread that reaches for a key it has missed comes to an outcome, or claims the key. -/
theorem claim_posts {c : CacheId} {k : K} {thread : ThreadId} {receiver : Receiver K N V σ B}
    (h : m.claim c k thread receiver = some m') :
    m'.stack = m.stack ∧
      ((∃ r, m'.focus = .deliver c k r receiver ∧ m.world.Answers c k r ∧
          m'.world.ledger = m.world.ledger ∧ m'.world.threads = m.world.threads) ∨
        (m'.focus = .attempt ⟨c, k, thread, passLimit⟩ receiver ∧ m.world.holder c k = none ∧
          m.world.stored c k = none ∧ m.world.replayable c k = none ∧
          m.world.Updates m'.world c k ({ · with holder := some thread }))) := by
  have hlooks {cache : Cache K V σ B} (hcache : m.world.cache? c = some cache) :
      m.world.stored c k = cache.store.get? k ∧ m.world.replayable c k = cache.replayable k :=
    ⟨World.stored_of_cache? hcache k, by rw [World.replayable, hcache]; rfl⟩
  cases claims_of_claim h with
  | reentrant current held => exact ⟨rfl, Or.inl ⟨_, rfl, .refused _, rfl, rfl⟩⟩
  | @answered cache _ _ r current free found =>
      obtain ⟨hstored, hreplayable⟩ := hlooks current
      obtain ⟨hfree, rfl⟩ := Cache.claim_eq_claimed_iff.1 free
      obtain ⟨hreads, hsame⟩ := (cache.claimed k thread).recheck_reads k
      rw [found] at hreads hsame
      refine ⟨rfl, Or.inl ⟨_, rfl, ?_, World.ledger_setCache_of_eq current
        (Cache.release_resetCounters hfree hsame), rfl⟩⟩
      rcases hreads with ⟨v, hr, hv⟩ | ⟨f, hr, hv, hf⟩ | ⟨hr, -⟩
      · obtain rfl := Option.some.inj hr
        exact .published v (hstored.trans hv)
      · obtain rfl := Option.some.inj hr
        exact .replayed f (hstored.trans hv) (hreplayable.trans hf)
      · simp at hr
  | @claimed cache _ _ current free missed =>
      obtain ⟨hstored, hreplayable⟩ := hlooks current
      obtain ⟨hfree, rfl⟩ := Cache.claim_eq_claimed_iff.1 free
      obtain ⟨hreads, hsame⟩ := (cache.claimed k thread).recheck_reads k
      rw [missed] at hreads hsame
      rcases hreads with ⟨v, hr, -⟩ | ⟨f, hr, -⟩ | ⟨-, hv, hf⟩
      · simp at hr
      · simp at hr
      · refine ⟨rfl, Or.inr ⟨rfl, ?_, hstored.trans hv, hreplayable.trans hf,
          World.Updates.setCache current fun l => ?_⟩⟩
        · rw [World.holder, World.account_of_cache? current]
          exact hfree
        · rw [Cache.account_of_resetCounters hsame, Cache.claimed_account]

omit [DecidableEq N] [BEq V] in
/-- Threads that are answered before the claim are answered with what is on record, threads that
wait have missed the key, and nothing but counters change. -/
theorem requestAll_posts (k : K) (threads : List ThreadId) (cache : Cache K V σ B) :
    (requestAll k threads cache).2.resetCounters = cache.resetCounters ∧
      (requestAll k threads cache).1.2.Sublist threads ∧
      ((requestAll k threads cache).1.2 ≠ [] → cache.Reads k none) ∧
      ∀ r ∈ (requestAll k threads cache).1.1, ∃ a, r = .returned a ∧ cache.Reads k (some a) := by
  induction threads generalizing cache with
  | nil => exact ⟨rfl, .slnil, by simp [requestAll], by simp [requestAll]⟩
  | cons t rest ih =>
      obtain ⟨hreads, hsame⟩ := cache.request_reads k
      rcases hr : cache.request k with ⟨answer, cache₁⟩
      rw [hr] at hreads hsame
      obtain ⟨hrest, hsub, hmissed, hanswers⟩ := ih cache₁
      have hearlier : ∀ r ∈ (requestAll k rest cache₁).1.1,
          ∃ a, r = .returned a ∧ cache.Reads k (some a) := by
        intro r hr
        obtain ⟨a, rfl, ha⟩ := hanswers r hr
        exact ⟨a, rfl, ha.congr hsame⟩
      cases answer with
      | none =>
          simp only [requestAll, hr]
          exact ⟨hrest.trans hsame, hsub.cons_cons t, fun _ => hreads, hearlier⟩
      | some a =>
          simp only [requestAll, hr]
          refine ⟨hrest.trans hsame, hsub.cons t, fun hwaiting => (hmissed hwaiting).congr hsame,
            fun r hr => ?_⟩
          rcases List.mem_cons.1 hr with rfl | hr
          · exact ⟨a, rfl, hreads⟩
          · exact hearlier r hr

end Machine

namespace Posting

variable {m' : Machine K N V σ B} {w w' : World K N V σ B} {stack : List (Frame K N V σ B)}
  {focus focus' : Focus K N V σ B}

omit [DecidableEq N] [BEq V] [ToString K] in
/-- The focus moves, frames come or go, and nothing is seen in accounts. -/
theorem of_ledger {stack' : List (Frame K N V σ B)} (hledger : w'.ledger = w.ledger)
    (hthreads : w'.threads = w.threads)
    (hpasses : focus'.passes ++ stack'.flatMap (·.asker.passes) =
      focus.passes ++ stack.flatMap (·.asker.passes))
    (hwaiting : focus'.waiting ++ stack'.flatMap (·.asker.waiting) <:+
      focus.waiting ++ stack.flatMap (·.asker.waiting))
    (hunclaimed : ∀ c k r receiver, focus' = .deliver c k r receiver →
      ∃ thread, (⟨w, focus, stack⟩ : Machine K N V σ B).AsksFor c k thread receiver)
    (hanswers : ∀ c k r, (⟨w, focus, stack⟩ : Machine K N V σ B).Ends ⟨w', focus', stack'⟩ c k r →
      w.Answers c k r) :
    Posting ⟨w, focus, stack⟩ ⟨w', focus', stack'⟩ :=
  .kept (World.account_of_ledger hledger) hthreads (congrArg (List.map Pass.claim) hpasses)
    hwaiting hunclaimed hanswers

omit [DecidableEq N] [BEq V] [ToString K] in
/-- So does a step that ends no request. -/
theorem of_move {stack' : List (Frame K N V σ B)} (hledger : w'.ledger = w.ledger)
    (hthreads : w'.threads = w.threads)
    (hpasses : focus'.passes ++ stack'.flatMap (·.asker.passes) =
      focus.passes ++ stack.flatMap (·.asker.passes))
    (hwaiting : focus'.waiting ++ stack'.flatMap (·.asker.waiting) =
      focus.waiting ++ stack.flatMap (·.asker.waiting))
    (hdeliver : ∀ c k r receiver, focus' ≠ .deliver c k r receiver)
    (hrace : ∀ c k n next, focus ≠ .run (.race c k n next)) :
    Posting ⟨w, focus, stack⟩ ⟨w', focus', stack'⟩ :=
  .of_ledger hledger hthreads hpasses (hwaiting ▸ List.suffix_rfl)
    (fun c k r receiver h => absurd h (hdeliver c k r receiver)) fun c k r hends =>
    absurd hends (Machine.not_ends hdeliver hrace c k r)

omit [DecidableEq N] [BEq V] [ToString K] in
/-- The innermost pass ends otherwise than by a failure. -/
theorem of_settle {m : Machine K N V σ B} {p : Pass K} {outcome : Outcome V}
    {receiver : Receiver K N V σ B}
    (h : (⟨w', focus, stack⟩ : Machine K N V σ B).settle p outcome receiver = some m')
    (hfills : m.world.Fills w')
    (hpasses : m.passes = p :: stack.flatMap (·.asker.passes))
    (hwaiting : m.waiting = receiver.waiting ++ stack.flatMap (·.asker.waiting))
    (hunfailed : ∀ f, outcome ≠ .returned (.error (.failure f))) : Posting m m' := by
  obtain ⟨cache, hcache, rfl⟩ := Machine.release_of_settle h
  have hupdates : w'.Updates (w'.setCache p.cache (cache.release p.key)) p.cache p.key
      ({ · with holder := none }) :=
    World.Updates.setCache hcache (cache.release_account p.key)
  have hheld : m.held = p.claim :: (stack.flatMap (·.asker.passes)).map Pass.claim := by
    rw [Machine.held, hpasses, List.map_cons]
  exact .settled w' p outcome receiver hfills hupdates rfl hheld hwaiting.symm hunfailed

/-- A builder that returns leaves every account alone: its value goes into a context. -/
theorem of_done {r : Except RequestError V}
    (h : Machine.stepRun ⟨w, .run (.done r), stack⟩ (.done r) = some m') :
    Posting ⟨w, .run (.done r), stack⟩ m' := by
  cases stack with
  | nil => simp [Machine.stepRun] at h
  | cons frame rest =>
      have hanswered {w' : World K N V σ B} (hledger : w'.ledger = w.ledger)
          (hthreads : w'.threads = w.threads) (answer : Except RequestError (Option V)) :
          Posting (⟨w, .run (.done r), frame :: rest⟩ : Machine K N V σ B)
            ⟨w', .reply frame.context frame.key answer frame.asker, rest⟩ :=
        .of_move hledger hthreads rfl rfl (by simp) (by simp)
      cases r with
      | error e =>
          obtain rfl := Option.some.inj h
          exact hanswered rfl rfl _
      | ok v =>
          simp only [Machine.stepRun, bind, Option.bind_eq_some_iff] at h
          obtain ⟨⟨answer, w'⟩, hrecord, h⟩ := h
          obtain ⟨hledger, hthreads⟩ := World.record_ledger hrecord
          cases answer with
          | error e =>
              obtain rfl := Option.some.inj h
              exact hanswered hledger hthreads _
          | ok u =>
              obtain rfl := Option.some.inj h
              exact hanswered hledger hthreads _

/-- A panic that unwinds a pass gives the claim of the pass back. -/
theorem of_panic {message : String}
    (h : Machine.stepRun ⟨w, .run (.panic message), stack⟩ (.panic message) = some m') :
    Posting ⟨w, .run (.panic message), stack⟩ m' := by
  cases stack with
  | nil => simp [Machine.stepRun] at h
  | cons frame rest =>
      obtain ⟨x, k, thread, asker⟩ := frame
      cases asker with
      | routine next =>
          obtain rfl := Option.some.inj h
          exact .of_move rfl rfl rfl rfl (by simp) (by simp)
      | pass p receiver =>
          exact of_settle h (.of_ledger rfl rfl) rfl rfl (by simp)

omit [DecidableEq N] [BEq V] in
/-- A thread that has missed a key reaches for it. -/
theorem of_claim {m : Machine K N V σ B} {c : CacheId} {k : K} {thread : ThreadId}
    {receiver : Receiver K N V σ B} (request : m.AsksFor c k thread receiver)
    (h : ({ m with world := w } : Machine K N V σ B).claim c k thread receiver = some m')
    (hledger : w.ledger = m.world.ledger) (hthreads : w.threads = m.world.threads) :
    Posting m m' := by
  obtain ⟨hstack, hclaim⟩ := Machine.claim_posts h
  have haccount := World.account_of_ledger hledger
  have hstored : w.stored c k = m.world.stored c k := World.stored_of_account (haccount c k)
  have hreplayable : w.replayable c k = m.world.replayable c k :=
    World.replayable_of_ledger hledger c k
  have hwaiting : receiver.waiting <:+ m.focus.waiting := by
    rcases request.waiting_eq with ⟨-, hwaiting⟩ | hwaiting
    · exact hwaiting ▸ List.suffix_rfl
    · rw [hwaiting]
      exact List.suffix_cons thread _
  -- The request is answered at once, or the key is claimed and a pass begins.
  rcases hclaim with ⟨r, hfocus, hanswers, hledger', hthreads'⟩ |
    ⟨hfocus, hfree, hunpublished, hunreplayable, hupdates⟩
  · refine .kept (World.account_of_ledger (hledger'.trans hledger)) (hthreads'.trans hthreads)
      ?_ ?_ (fun d l r' receiver' hfocus' => ?_) fun d l r' hends => ?_
    · rw [Machine.held, Machine.passes, hfocus, hstack, Machine.held, Machine.passes,
        request.passes_eq_nil]
      rfl
    · rw [Machine.waiting, hfocus, hstack]
      obtain ⟨earlier, hearlier⟩ := hwaiting
      refine ⟨earlier, ?_⟩
      rw [Machine.waiting, ← hearlier, List.append_assoc]
      rfl
    · obtain ⟨rfl, rfl, -, rfl⟩ := Focus.deliver.inj (hfocus.symm.trans hfocus')
      exact ⟨thread, request⟩
    · rcases hends with ⟨receiver', hfocus'⟩ | ⟨n, next, -, -, hbefore, -, -⟩
      · obtain ⟨rfl, rfl, rfl, -⟩ := Focus.deliver.inj (hfocus.symm.trans hfocus')
        cases hanswers with
        | published v stored => exact .published v (hstored.symm.trans stored)
        | replayed f unpublished replayable =>
            exact .replayed f (hstored.symm.trans unpublished) (hreplayable.symm.trans replayable)
        | refused e => exact .refused e
      · exact absurd hbefore (request.not_race d l n next)
  · refine .claimed c k thread receiver request ?_ (hstored.symm.trans hunpublished)
      (hreplayable.symm.trans hunreplayable) ⟨fun d l => ?_, hupdates.threads.trans hthreads⟩
      hfocus hstack
    · rw [← World.holder_of_account (haccount c k)]
      exact hfree
    · rw [hupdates.accounts, haccount]

/-- A request for a derived value is answered from the record, or takes a claim. -/
theorem of_get {c : CacheId} {k : K} {next : Except RequestError V → Body K N V σ B}
    (h : Machine.stepRun ⟨w, .run (.get c k next), stack⟩ (.get c k next) = some m') :
    Posting ⟨w, .run (.get c k next), stack⟩ m' := by
  simp only [Machine.stepRun, World.onCache, bind, Option.bind_eq_some_iff,
    Option.map_eq_some_iff] at h
  obtain ⟨⟨answer, w₁⟩, ⟨cache, hcache, hrequest⟩, h⟩ := h
  obtain ⟨hreads, hsame⟩ := cache.request_reads k
  obtain ⟨hanswer, rfl⟩ := Prod.mk.inj hrequest
  have hledger : (w.setCache c (cache.request k).2).ledger = w.ledger :=
    World.ledger_setCache_of_eq hcache hsame
  cases answer with
  | some r =>
      obtain rfl := Option.some.inj h
      rw [hanswer] at hreads
      refine .of_ledger hledger rfl rfl List.suffix_rfl (fun d l r' receiver hfocus => ?_)
        fun d l r' hends => ?_
      · obtain ⟨rfl, rfl, -, rfl⟩ := Focus.deliver.inj hfocus
        exact ⟨_, .get next rfl⟩
      rcases hends with ⟨receiver, hfocus⟩ | ⟨n, next, -, -, hbefore, -, -⟩
      · obtain ⟨rfl, rfl, rfl, -⟩ := Focus.deliver.inj hfocus
        exact .of_reads hcache hreads
      · simp at hbefore
  | none => exact .of_claim (.get next rfl) h hledger rfl

/-- A race starts its threads. Those that miss the key wait, and the others are answered from the
record. -/
theorem of_race {c : CacheId} {k : K} {n : Nat} {next : List (Outcome V) → Body K N V σ B}
    (h : Machine.stepRun ⟨w, .run (.race c k n next), stack⟩ (.race c k n next) = some m') :
    Posting ⟨w, .run (.race c k n next), stack⟩ m' := by
  simp only [Machine.stepRun, World.onCache, bind, Option.bind_eq_some_iff,
    Option.map_eq_some_iff] at h
  obtain ⟨⟨⟨outcomes, waiting⟩, w₁⟩, ⟨cache, hcache, hrequest⟩, h⟩ := h
  obtain ⟨hsame, hsub, -, hanswers⟩ := Machine.requestAll_posts k
    ((List.range n).map fun i => (⟨w.threads + i⟩ : ThreadId)) cache
  obtain ⟨hpair, rfl⟩ := Prod.mk.inj hrequest
  obtain rfl := Option.some.inj h
  rw [hpair] at hsub hanswers
  have hledger := World.ledger_setCache_of_eq hcache hsame
  refine .raced n waiting outcomes next (World.account_of_ledger hledger) rfl rfl hsub rfl rfl rfl
    fun d l r hends => ?_
  rcases hends with ⟨receiver, hfocus⟩ | ⟨n', next', waiting', outcomes', hbefore, hafter, hmem⟩
  · simp [Machine.move] at hfocus
  · obtain ⟨rfl, rfl, rfl, rfl, -⟩ := Focus.wake.inj hafter
    obtain ⟨a, rfl, hreads⟩ := hanswers r hmem
    exact .of_reads hcache hreads

/-- The posting of a step that a routine makes, by cases on what the routine does. -/
theorem of_stepRun {r : Body K N V σ B}
    (h : Machine.stepRun ⟨w, .run r, stack⟩ r = some m') : Posting ⟨w, .run r, stack⟩ m' := by
  cases r with
  | done r => exact of_done h
  | panic message => exact of_panic h
  | halt => simp [Machine.stepRun] at h
  | perform r next =>
      simp only [Machine.stepRun, bind, Option.bind_eq_some_iff] at h
      obtain ⟨⟨answer, w'⟩, hanswer, h⟩ := h
      obtain rfl := Option.some.inj h
      by_cases hr : ∃ c, r = .clearFailures c
      · obtain ⟨c, rfl⟩ := hr
        obtain ⟨hthreads, haccounts⟩ := World.answer_clearFailures hanswer
        exact .forgot c next rfl haccounts hthreads rfl rfl
          (Machine.not_ends (by simp [Machine.move]) (by simp))
      · exact .filled (World.answer_fills hanswer fun c hc => hr ⟨c, hc⟩) rfl rfl
          (Machine.not_ends (by simp [Machine.move]) (by simp))
  | build x k next =>
      obtain rfl := Option.some.inj h
      exact .of_move rfl rfl rfl rfl (by simp) (by simp)
  | get c k next => exact of_get h
  | race c k n next => exact of_race h

omit [DecidableEq N] [BEq V] in
/-- A request within a pass leaves every account alone. -/
theorem of_stepAsk {x : ContextId} {k : K} {asker : Asker K N V σ B}
    (h : Machine.stepAsk body ⟨w, .ask x k asker, stack⟩ x k asker = some m') :
    Posting ⟨w, .ask x k asker, stack⟩ m' := by
  simp only [Machine.stepAsk, bind, Option.bind_eq_some_iff] at h
  obtain ⟨⟨l, w'⟩, hlookup, h⟩ := h
  obtain ⟨hledger, hthreads⟩ := World.lookup_ledger hlookup
  cases l with
  | answered answer =>
      obtain rfl := Option.some.inj h
      exact .of_move hledger hthreads rfl rfl (by simp) (by simp)
  | build b =>
      obtain rfl := Option.some.inj h
      exact .of_move hledger hthreads rfl rfl (by simp) (by simp)

omit [DecidableEq N] in
/-- A pass has its value, and its context is committed. -/
theorem of_commit {x : ContextId} {k : K} {v : V} {p : Pass K} {receiver : Receiver K N V σ B}
    (h : Machine.stepReply ⟨w, .reply x k (.ok (some v)) (.pass p receiver), stack⟩ x k
      (.ok (some v)) (.pass p receiver) = some m') :
    Posting ⟨w, .reply x k (.ok (some v)) (.pass p receiver), stack⟩ m' := by
  simp only [Machine.stepReply, bind, Option.bind_eq_some_iff] at h
  obtain ⟨⟨decided, w₁⟩, hcommit, h⟩ := h
  have hfills := World.commit_fills hcommit
  rcases decided with e | _ | _
  · exact of_settle h hfills rfl rfl (by simp)
  · simp only [Option.bind_eq_some_iff] at h
    obtain ⟨cache, -, h⟩ := h
    cases hp : cache.store.get? p.key with
    | some u =>
        simp only [hp] at h
        exact of_settle h hfills rfl rfl (by simp)
    | none =>
        simp only [hp] at h
        obtain rfl := Option.some.inj h
        exact .filled hfills rfl rfl (Machine.not_ends (by simp [Machine.goto]) (by simp))
  · exact of_settle h hfills rfl rfl (by simp)

omit [DecidableEq N] in
/-- A pass has failed. -/
theorem of_failure {x : ContextId} {k : K} {e : RequestError} {p : Pass K}
    {receiver : Receiver K N V σ B}
    (h : Machine.stepReply ⟨w, .reply x k (.error e) (.pass p receiver), stack⟩ x k
      (.error e) (.pass p receiver) = some m') :
    Posting ⟨w, .reply x k (.error e) (.pass p receiver), stack⟩ m' := by
  simp only [Machine.stepReply, World.onCache, bind, Option.bind_eq_some_iff,
    Option.map_eq_some_iff] at h
  obtain ⟨-, ⟨cache, hcache, rfl⟩, h⟩ := h
  cases e with
  | violation e =>
      have hledger : (w.setCache p.cache (cache.remember p.key (.violation e))).ledger = w.ledger :=
        World.ledger_setCache_of_eq hcache rfl
      exact of_settle h (.of_ledger hledger rfl) rfl rfl (by simp)
  | conflict key =>
      have hledger :
          (w.setCache p.cache (cache.remember p.key (.conflict key))).ledger = w.ledger :=
        World.ledger_setCache_of_eq hcache rfl
      exact of_settle h (.of_ledger hledger rfl) rfl rfl (by simp)
  | failure f =>
      have hcurrent : (w.setCache p.cache (cache.remember p.key (.failure f))).cache? p.cache =
          some (cache.remember p.key (.failure f)) := World.cache?_setCache_self hcache _
      simp only [Machine.settle, World.onCache, hcurrent, Option.map_some, bind, Option.bind_some,
        Option.pure_def, Option.some.injEq] at h
      subst h
      have hmemo := cache.remember_account p.key f
      refine .failed x k f p receiver ((cache.remember p.key (.failure f)).account p.key).failure
        rfl rfl (fun g => ?_) ⟨fun d l => ?_, rfl⟩ rfl rfl
      · rw [hmemo, World.remembered_of_cache? hcache]
        have hcaches : w.Caches p.cache ↔ cache.config.cachesFailures = true := by
          simp [World.Caches, hcache]
        rw [hcaches]
        by_cases hnew : cache.config.cachesFailures = true ∧ cache.failures.get? p.key = none
        · simp [hnew.1, hnew.2, eq_comm]
        · rw [if_neg fun hall => hnew hall.2]
          refine ⟨Or.inl, fun hg => hg.resolve_right fun hall => hnew ⟨hall.1, hall.2.1⟩⟩
      · change ((w.setCache _ _).setCache _ _).account d l = _
        rw [World.account_setCache hcurrent, World.account_setCache hcache]
        by_cases hdc : d = p.cache
        · subst hdc
          rw [if_pos rfl, Cache.release_account, World.account_of_cache? hcache]
          by_cases hlk : l = p.key
          · subst hlk
            rw [if_pos rfl, if_pos ⟨rfl, rfl⟩, hmemo]
            split <;> rfl
          · rw [if_neg hlk, hmemo, if_neg fun hall => hlk hall.1, if_neg fun hall => hlk hall.2]
        · rw [if_neg hdc, if_neg hdc, if_neg fun hall => hdc hall.1]

omit [DecidableEq N] in
/-- A pass that is replied to is committed and settled, or goes into another attempt. -/
theorem of_stepReply {x : ContextId} {k : K} {answer : Except RequestError (Option V)}
    {asker : Asker K N V σ B}
    (h : Machine.stepReply ⟨w, .reply x k answer asker, stack⟩ x k answer asker = some m') :
    Posting ⟨w, .reply x k answer asker, stack⟩ m' := by
  cases asker with
  | routine next =>
      obtain rfl := Option.some.inj h
      exact .of_move rfl rfl rfl rfl (by simp) (by simp)
  | pass p receiver =>
      rcases answer with e | _ | v
      · exact of_failure h
      · exact of_settle h (.of_ledger rfl rfl) rfl rfl (by simp)
      · exact of_commit h

omit [DecidableEq N] [BEq V] in
/-- An attempt leaves every account alone, unless it is the one too many: then the claim is given
back. -/
theorem of_stepAttempt {p : Pass K} {receiver : Receiver K N V σ B}
    (h : Machine.stepAttempt ⟨w, .attempt p receiver, stack⟩ p receiver = some m') :
    Posting ⟨w, .attempt p receiver, stack⟩ m' := by
  rcases Machine.start_of_stepAttempt h with ⟨-, h⟩ |
    ⟨left, cache, x, w', -, hcache, hcreate, rfl⟩
  · exact of_settle h (.of_ledger rfl rfl) rfl rfl (by simp)
  · obtain ⟨hledger, hthreads⟩ := World.createContext_ledger hcreate
    have hcounted : (w.setCache p.cache (cache.count .pass)).ledger = w.ledger :=
      World.ledger_setCache_of_eq hcache rfl
    -- The pass has one start less to make, which its claim does not show.
    exact .kept (World.account_of_ledger (hledger.trans hcounted)) hthreads rfl List.suffix_rfl
      (by simp [Machine.move]) fun c k r hends =>
        absurd hends (Machine.not_ends (by simp [Machine.move]) (by simp) c k r)

omit [DecidableEq N] [BEq V] [ToString K] in
/-- To deliver an outcome leaves every account alone. -/
theorem of_stepDeliver {c : CacheId} {k : K} {outcome : Outcome V}
    {receiver : Receiver K N V σ B} :
    Posting ⟨w, .deliver c k outcome receiver, stack⟩
      (Machine.stepDeliver ⟨w, .deliver c k outcome receiver, stack⟩ c k outcome receiver) := by
  cases receiver with
  | crowd waiting outcomes next =>
      exact .of_move rfl rfl rfl rfl (by simp) (by simp)
  | caller next =>
      cases outcome with
      | returned r =>
          exact .of_move rfl rfl rfl rfl (by simp) (by simp)
      | panicked message =>
          exact .of_move rfl rfl rfl rfl (by simp) (by simp)

/-- Every step is a posting. -/
theorem of_step {m m' : Machine K N V σ B} (h : m.step body = some m') : Posting m m' := by
  obtain ⟨w, focus, stack⟩ := m
  cases focus with
  | run r => exact of_stepRun h
  | ask x k asker => exact of_stepAsk h
  | reply x k answer asker => exact of_stepReply h
  | attempt p receiver => exact of_stepAttempt h
  | deliver c k outcome receiver =>
      obtain rfl := Option.some.inj h
      exact of_stepDeliver
  | wake c k waiting outcomes next =>
      cases waiting with
      | nil =>
          obtain rfl := Option.some.inj h
          exact .of_move rfl rfl rfl rfl (by simp) (by simp)
      | cons thread waiting => exact .of_claim (.wake thread waiting outcomes next rfl) h rfl rfl

end Posting

end Postings

end DerivationCache
