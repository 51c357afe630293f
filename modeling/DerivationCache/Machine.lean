import DerivationCache.Routine

/-!
# The machine that runs routines

A routine may ask for values that only other routines, the bodies of builders, can give, and
those may ask in turn. A `Machine` holds such a run between two steps: the world, the
`Focus`, which says what happens next, and one `Frame` for every builder call in progress,
the innermost first. Since the frames are explicit, everything that happens inside a running
builder is a state of the machine like any other.

A request for a derived value goes through these foci:

    run (get …) ──hit, replay, refusal──────────────────────────▶ deliver
        │ miss, key claimed
        ▼
      attempt ──▶ ask ──▶ (builder runs) ──▶ reply ──▶ deliver
        ▲                                      │
        └────── commit lost, none published ───┘

`Machine.step` makes one step. It has none to make when the outermost routine has ended
(`Machine.status`), or when a thread waits for a key that is held by a thread that is itself
waiting: then the run never ends. `Machine.run` makes steps until there is none, or until its
fuel is used up.
-/

namespace DerivationCache

variable {K N V σ B : Type}

/-- The number of passes that a request may start before a conflict is reported. -/
def passLimit : Nat := 4

/-- A claimed request whose value is being derived. -/
structure Pass (K : Type) where
  cache : CacheId
  key : K
  /-- The thread that holds the claim. -/
  thread : ThreadId
  /-- How many more passes may be started. -/
  left : Nat

/-- Who gets the outcome of a request for a derived value. -/
inductive Receiver (K N V σ B : Type) where
  /-- The routine that made the request. -/
  | caller (next : Except RequestError V → Body K N V σ B)
  /-- The first of several threads that made one request. The others still wait. -/
  | crowd (waiting : List ThreadId) (outcomes : List (Outcome V))
      (next : List (Outcome V) → Body K N V σ B)

/-- Who gets the answer to a request for a key within a pass. -/
inductive Asker (K N V σ B : Type) where
  /-- The routine that made the request. -/
  | routine (next : Except RequestError (Option V) → Body K N V σ B)
  /-- The pass, whose requested key this is. -/
  | pass (pass : Pass K) (receiver : Receiver K N V σ B)

/-- A builder call in progress. -/
structure Frame (K N V σ B : Type) where
  context : ContextId
  /-- The key that the builder was called for. -/
  key : K
  /-- The thread that the call runs on. -/
  thread : ThreadId
  asker : Asker K N V σ B

/-- What happens next. -/
inductive Focus (K N V σ B : Type) where
  /-- The innermost routine goes on. -/
  | run (body : Body K N V σ B)
  /-- A key is requested within a pass. -/
  | ask (context : ContextId) (key : K) (asker : Asker K N V σ B)
  /-- A request within a pass has its answer. -/
  | reply (context : ContextId) (key : K) (answer : Except RequestError (Option V))
      (asker : Asker K N V σ B)
  /-- A claimed request starts its next pass. -/
  | attempt (pass : Pass K) (receiver : Receiver K N V σ B)
  /-- A request for a derived value has its outcome. -/
  | deliver (cache : CacheId) (key : K) (outcome : Outcome V) (receiver : Receiver K N V σ B)
  /-- The next of the threads that wait for one key wakes up. -/
  | wake (cache : CacheId) (key : K) (waiting : List ThreadId) (outcomes : List (Outcome V))
      (next : List (Outcome V) → Body K N V σ B)

/-- A run between two steps. -/
structure Machine (K N V σ B : Type) where
  world : World K N V σ B
  focus : Focus K N V σ B
  /-- The builder calls in progress, innermost first. -/
  stack : List (Frame K N V σ B) := []

/-- Where a run stands. -/
inductive Status (V : Type) where
  /-- There are more steps to make. -/
  | running
  /-- The outermost routine has returned. -/
  | returned (result : Except RequestError V)
  /-- A panic has unwound the outermost routine. -/
  | panicked (message : String)
  /-- A routine has stopped the run. -/
  | halted
  /-- No step can be made: a thread waits for itself, or something was named that was never
  made. -/
  | stuck

namespace Machine

/-- The machine that is about to do a routine. -/
def start (w : World K N V σ B) (body : Body K N V σ B) : Machine K N V σ B :=
  { world := w, focus := .run body }

/-- The thread that the innermost routine runs on. -/
def thread (m : Machine K N V σ B) : ThreadId :=
  match m.stack with
  | [] => .main
  | frame :: _ => frame.thread

/-- The machine with another focus. -/
def goto (m : Machine K N V σ B) (focus : Focus K N V σ B) : Machine K N V σ B :=
  { m with focus }

/-- The machine with another world and focus. -/
def move (m : Machine K N V σ B) (w : World K N V σ B) (focus : Focus K N V σ B) :
    Machine K N V σ B :=
  { m with world := w, focus }

variable [DecidableEq K] [DecidableEq N] [BEq V] [ToString K]

/-- Several threads make the part of one request that comes before the claim. The outcome of
those that were answered comes with the threads that were not. -/
def requestAll (k : K) : List ThreadId → Cache K V σ B →
    (List (Outcome V) × List ThreadId) × Cache K V σ B
  | [], cache => (([], []), cache)
  | t :: rest, cache =>
    let (answer, cache) := cache.request k
    let ((outcomes, waiting), cache) := requestAll k rest cache
    match answer with
    | some r => ((.returned r :: outcomes, waiting), cache)
    | none => ((outcomes, t :: waiting), cache)

/-- A thread that has missed reaches for its key: it may find the key held by itself further
up the stack, find that others have settled it, or start to derive it. A key that is held by
another thread is never given back, since that thread waits for this one. -/
def claim (m : Machine K N V σ B) (c : CacheId) (k : K) (thread : ThreadId)
    (receiver : Receiver K N V σ B) : Option (Machine K N V σ B) := do
  let cache ← m.world.cache? c
  match cache.claim k thread with
  | .held _ => none
  | .reentrant =>
    return m.goto (.deliver c k
      (.returned (.error (.violation (.unresolvableReentry (toString k))))) receiver)
  | .claimed cache =>
    match cache.recheck k with
    | (some r, cache) =>
      return m.move (m.world.setCache c (cache.release k)) (.deliver c k (.returned r) receiver)
    | (none, cache) =>
      return m.move (m.world.setCache c cache)
        (.attempt { cache := c, key := k, thread, left := passLimit } receiver)

/-- A claimed request ends: its claim is given back, and its outcome is delivered. -/
def settle (m : Machine K N V σ B) (p : Pass K) (outcome : Outcome V)
    (receiver : Receiver K N V σ B) : Option (Machine K N V σ B) := do
  let ((), w) ← m.world.onCache p.cache fun cache => ((), cache.release p.key)
  return m.move w (.deliver p.cache p.key outcome receiver)

/-- The innermost routine goes on. -/
def stepRun (m : Machine K N V σ B) : Body K N V σ B → Option (Machine K N V σ B)
  | .done r =>
    match m.stack with
    | [] => none
    | frame :: rest => do
      let m := { m with stack := rest }
      match r with
      | .error e => return m.goto (.reply frame.context frame.key (.error e) frame.asker)
      | .ok v =>
        match ← m.world.record frame.context frame.key v true with
        | (.error e, w) =>
          return m.move w (.reply frame.context frame.key (.error (.violation e)) frame.asker)
        | (.ok (), w) =>
          return m.move w (.reply frame.context frame.key (.ok (some v)) frame.asker)
  | .panic message =>
    match m.stack with
    | [] => none
    | frame :: rest =>
      let m := { m with stack := rest }
      match frame.asker with
      | .routine _ => some (m.goto (.run (.panic message)))
      | .pass p receiver => m.settle p (.panicked message) receiver
  | .halt => none
  | .perform r next => do
    let (answer, w) ← m.world.answer r
    return m.move w (.run (next answer))
  | .build x k next => some (m.goto (.ask x k (.routine next)))
  | .get c k next => do
    let (answer, w) ← m.world.onCache c (·.request k)
    let m := { m with world := w }
    match answer with
    | some r => return m.goto (.deliver c k (.returned r) (.caller next))
    | none => m.claim c k m.thread (.caller next)
  | .race c k n next => do
    let first := m.world.threads
    let threads := (List.range n).map fun i => ⟨first + i⟩
    let ((outcomes, waiting), w) ← m.world.onCache c (requestAll k threads)
    return m.move { w with threads := first + n } (.wake c k waiting outcomes next)

/-- A key is requested within a pass. -/
def stepAsk (body : B → ContextId → K → Body K N V σ B) (m : Machine K N V σ B)
    (x : ContextId) (k : K) (asker : Asker K N V σ B) : Option (Machine K N V σ B) := do
  let thread := match asker with
    | .routine _ => m.thread
    | .pass p _ => p.thread
  match ← m.world.lookup x k with
  | (.answered answer, w) => return m.move w (.reply x k answer asker)
  | (.build b, w) =>
    return { world := w
             focus := .run (body b x k)
             stack := { context := x, key := k, thread, asker } :: m.stack }

/-- The pass of a claimed request has its value, or has failed. -/
def stepReply (m : Machine K N V σ B) (x : ContextId) (k : K)
    (answer : Except RequestError (Option V)) : Asker K N V σ B → Option (Machine K N V σ B)
  | .routine next => some (m.goto (.run (next answer)))
  | .pass p receiver =>
    match answer with
    | .error e => do
      let ((), w) ← m.world.onCache p.cache fun cache => ((), cache.remember p.key e)
      { m with world := w }.settle p (.returned (.error e)) receiver
    | .ok none =>
      m.settle p (.returned (.error (.violation (.readOnlyCache (toString k))))) receiver
    | .ok (some v) => do
      let (committed, w) ← m.world.commit x
      let m := { m with world := w }
      match committed with
      | .error e => m.settle p (.returned (.error (.violation e))) receiver
      | .ok true => m.settle p (.returned (.ok v)) receiver
      | .ok false =>
        let cache ← m.world.cache? p.cache
        match cache.store.get? p.key with
        | some published => m.settle p (.returned (.ok published)) receiver
        | none => return m.goto (.attempt p receiver)

/-- A claimed request starts a pass in a fresh context, unless it has used up its passes. -/
def stepAttempt (m : Machine K N V σ B) (p : Pass K) (receiver : Receiver K N V σ B) :
    Option (Machine K N V σ B) :=
  match p.left with
  | 0 => m.settle p (.returned (.error (.conflict (toString p.key)))) receiver
  | left + 1 => do
    let ((), w) ← m.world.onCache p.cache fun cache => ((), cache.count .pass)
    let (x, w) ← w.createContext p.cache
    return m.move w (.ask x p.key (.pass { p with left } receiver))

/-- A request for a derived value has its outcome. -/
def stepDeliver (m : Machine K N V σ B) (c : CacheId) (k : K) (outcome : Outcome V) :
    Receiver K N V σ B → Machine K N V σ B
  | .caller next =>
    match outcome with
    | .returned r => m.goto (.run (next r))
    | .panicked message => m.goto (.run (.panic message))
  | .crowd waiting outcomes next => m.goto (.wake c k waiting (outcomes ++ [outcome]) next)

/-- Makes one step. -/
def step (body : B → ContextId → K → Body K N V σ B) (m : Machine K N V σ B) :
    Option (Machine K N V σ B) :=
  match m.focus with
  | .run r => m.stepRun r
  | .ask x k asker => m.stepAsk body x k asker
  | .reply x k answer asker => m.stepReply x k answer asker
  | .attempt p receiver => m.stepAttempt p receiver
  | .deliver c k outcome receiver => some (m.stepDeliver c k outcome receiver)
  | .wake _ _ [] outcomes next => some (m.goto (.run (next outcomes)))
  | .wake c k (thread :: waiting) outcomes next =>
    m.claim c k thread (.crowd waiting outcomes next)

/-- Makes steps until there is none to make, at most as many as the fuel. -/
def run (body : B → ContextId → K → Body K N V σ B) : Nat → Machine K N V σ B →
    Machine K N V σ B
  | 0, m => m
  | fuel + 1, m =>
    match m.step body with
    | none => m
    | some m' => run body fuel m'

/-- A machine that has no step to make stays as it is, whatever the fuel. -/
theorem run_of_step_eq_none {body : B → ContextId → K → Body K N V σ B} {m : Machine K N V σ B}
    (h : m.step body = none) (fuel : Nat) : run body fuel m = m := by
  cases fuel with
  | zero => rfl
  | succ fuel => simp [run, h]

/-- Fuel adds up. -/
theorem run_add (body : B → ContextId → K → Body K N V σ B) (a b : Nat)
    (m : Machine K N V σ B) : run body (a + b) m = run body b (run body a m) := by
  induction a generalizing m with
  | zero => simp [run]
  | succ a ih =>
    cases h : m.step body with
    | none => rw [run_of_step_eq_none h, run_of_step_eq_none h, run_of_step_eq_none h]
    | some m' => simpa [run, h, Nat.add_right_comm] using ih m'

/-- Where the run stands. -/
def status (body : B → ContextId → K → Body K N V σ B) (m : Machine K N V σ B) : Status V :=
  match m.focus, m.stack with
  | .run (.done r), [] => .returned r
  | .run (.panic message), [] => .panicked message
  | .run .halt, _ => .halted
  | _, _ => if (m.step body).isSome then .running else .stuck

end Machine

end DerivationCache
