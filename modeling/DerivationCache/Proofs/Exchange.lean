import DerivationCache.Proofs.Twin

/-!
# Exchanges with the engine

An `Exchange` is something that is done from outside, together with what came of it: a request and
its answer, a request for a derived value and its outcome, or a look at a cache. It is addressed to
one cache or to none (`World.addressee`). A `Transcript` lists the exchanges of a client, one after
the other, each with the cache that it was addressed to.

An exchange that builders take part in is done by a machine. This machine works for the addressee of
the exchange from the start, and its twin is done when it is done, with the renamed outcome.

## Main results

* `Exchange.Occurs.invariant`: what every step preserves is preserved by an exchange.
* `Machine.Twin.get`, `Machine.Twin.race`, `Machine.Twin.build`: twins at the start of an exchange.
* `Machine.Twin.delivered`, `Machine.Twin.woken`, `Machine.Twin.replied`, `Machine.Twin.panicked`:
  twins at its end.
-/

namespace DerivationCache

variable {K N V σ B : Type}

/-- Something that is done from outside, and what came of it. -/
inductive Exchange (K N V σ B : Type) : Type where
  | request (request : Request K N V σ B) (answer : request.Answer)
  | got (cache : CacheId) (key : K) (outcome : Outcome V)
  | raced (cache : CacheId) (key : K) (threads : ℕ) (outcomes : List (Outcome V))
  | built (context : ContextId) (key : K) (answer : Except RequestError (Option V))
  /-- A builder has panicked. -/
  | broken (context : ContextId) (key : K) (message : String)
  /-- A look at everything in a cache. -/
  | inspected (id : CacheId) (cache : Cache K V σ B)
  /-- A look at everything in a context. -/
  | inspectedContext (id : ContextId) (context : Context K V σ B)

/-- The cache that an exchange is addressed to, directly or through a context. -/
def World.addressee (w : World K N V σ B) : Exchange K N V σ B → Option CacheId
  | .request r _ => w.target r
  | .got c _ _ => some c
  | .raced c _ _ _ => some c
  | .built x _ _ => w.parent? x
  | .broken x _ _ => w.parent? x
  | .inspected c _ => some c
  | .inspectedContext x _ => w.parent? x

namespace Exchange

/-- What is done, whatever comes of it. -/
def routine : Exchange K N V σ B → Body K N V σ B
  | .request r _ => .perform r fun _ => .halt
  | .got c k _ => .get c k fun _ => .halt
  | .raced c k n _ => .race c k n fun _ => .halt
  | .built x k _ => .build x k fun _ => .halt
  | .broken x k _ => .build x k fun _ => .halt
  | .inspected _ _ => .halt
  | .inspectedContext _ _ => .halt

section Occurs

variable [DecidableEq K] [DecidableEq N] [BEq V] [ToString K]
  (body : B → ContextId → K → Body K N V σ B) (w : World K N V σ B)

/-- This comes of it in the first world, and leads to the second one. -/
inductive Occurs : Exchange K N V σ B → World K N V σ B → Prop
  | request {r : Request K N V σ B} {a : r.Answer} {w₁ : World K N V σ B}
      (answer : w.answer r = some (a, w₁)) : Occurs (.request r a) w₁
  | got {c : CacheId} {k : K} {outcome : Outcome V} {w₁ : World K N V σ B} (fuel : ℕ)
      (delivered : Machine.run body fuel (.start w (.get c k fun _ => .halt)) =
        ⟨w₁, .deliver c k outcome (.caller fun _ => .halt), []⟩) : Occurs (.got c k outcome) w₁
  | raced {c : CacheId} {k : K} {threads : ℕ} {outcomes : List (Outcome V)}
      {w₁ : World K N V σ B} (fuel : ℕ)
      (delivered : Machine.run body fuel (.start w (.race c k threads fun _ => .halt)) =
        ⟨w₁, .wake c k [] outcomes fun _ => .halt, []⟩) :
      Occurs (.raced c k threads outcomes) w₁
  | built {x : ContextId} {k : K} {answer : Except RequestError (Option V)}
      {w₁ : World K N V σ B} (fuel : ℕ)
      (delivered : Machine.run body fuel (.start w (.build x k fun _ => .halt)) =
        ⟨w₁, .reply x k answer (.routine fun _ => .halt), []⟩) : Occurs (.built x k answer) w₁
  | broken {x : ContextId} {k : K} {message : String} {w₁ : World K N V σ B} (fuel : ℕ)
      (delivered : Machine.run body fuel (.start w (.build x k fun _ => .halt)) =
        ⟨w₁, .run (.panic message), []⟩) : Occurs (.broken x k message) w₁
  | inspected {c : CacheId} {cache : Cache K V σ B} (found : w.cache? c = some cache) :
      Occurs (.inspected c cache) w
  | inspectedContext {x : ContextId} {context : Context K V σ B}
      (found : w.context? x = some context) : Occurs (.inspectedContext x context) w

end Occurs

section Renaming

variable [SMul Renaming V]

/-- A renaming acts on what is asked and on what is answered. -/
instance : SMul Renaming (Exchange K N V σ B) where
  smul π
    | .request r a => .request (π • r) (r.renameAnswer π a)
    | .got c k outcome => .got (π • c) k (π • outcome)
    | .raced c k n outcomes => .raced (π • c) k n (outcomes.map (π • ·))
    | .built x k answer => .built (π • x) k (π • answer)
    | .broken x k message => .broken (π • x) k message
    | .inspected c cache => .inspected (π • c) (π • cache)
    | .inspectedContext x context => .inspectedContext (π • x) (π • context)

/-- The exchange brings in plain collaborators only. -/
def Plain : Exchange K N V σ B → Prop
  | .request r _ => r.Plain
  | _ => True

end Renaming

end Exchange

/-- These exchanges lead from the first world to the last one, one after the other. Each is noted
with the cache that it was addressed to. -/
inductive Transcript [DecidableEq K] [DecidableEq N] [BEq V] [ToString K]
    (body : B → ContextId → K → Body K N V σ B) (w₀ : World K N V σ B) :
    List (Option CacheId × Exchange K N V σ B) → World K N V σ B → Prop
  | nil : Transcript body w₀ [] w₀
  | snoc {log : List (Option CacheId × Exchange K N V σ B)} {w w₁ : World K N V σ B}
      {x : Exchange K N V σ B} (before : Transcript body w₀ log w) (occurs : x.Occurs body w w₁) :
      Transcript body w₀ (log ++ [(w.addressee x, x)]) w₁

/-! ### Runs behind an exchange -/

section Runs

variable [DecidableEq K] [DecidableEq N] [BEq V] [ToString K]
  {body : B → ContextId → K → Body K N V σ B}

/-- One step of a run may be made ahead. -/
theorem Machine.run_of_step_eq_some {m m₁ : Machine K N V σ B} (h : m.step body = some m₁) (n : ℕ) :
    m.run body (n + 1) = m₁.run body n := by
  rw [run, h]

/-- What every step preserves is preserved by a run. -/
theorem Machine.run_invariant {P : World K N V σ B → Prop}
    (hstep : ∀ {m m' : Machine K N V σ B}, m.step body = some m' → P m.world → P m'.world)
    {m : Machine K N V σ B} (hm : P m.world) (n : ℕ) : P (m.run body n).world := by
  induction n generalizing m with
  | zero => exact hm
  | succ n ih =>
      cases made : m.step body with
      | none => rwa [run_of_step_eq_none made]
      | some m₁ =>
          rw [run_of_step_eq_some made]
          exact ih (hstep made hm)

/-- Whatever is done is done by a machine. -/
theorem Exchange.Occurs.run {w w₁ : World K N V σ B} {x : Exchange K N V σ B}
    (h : x.Occurs body w w₁) : ∃ n, (Machine.run body n (.start w x.routine)).world = w₁ := by
  cases h with
  | request answer =>
      rename_i r a
      have made : (Machine.start w (.perform r fun _ => .halt)).step body =
          some ⟨w₁, .run .halt, []⟩ := by
        simp [Machine.step, Machine.stepRun, Machine.start, answer, bind, Machine.move]
      exact ⟨1, congrArg Machine.world (Machine.run_of_step_eq_some made 0)⟩
  | got fuel delivered => exact ⟨fuel, congrArg Machine.world delivered⟩
  | raced fuel delivered => exact ⟨fuel, congrArg Machine.world delivered⟩
  | built fuel delivered => exact ⟨fuel, congrArg Machine.world delivered⟩
  | broken fuel delivered => exact ⟨fuel, congrArg Machine.world delivered⟩
  | inspected found => exact ⟨0, rfl⟩
  | inspectedContext found => exact ⟨0, rfl⟩

/-- What every step preserves is preserved by an exchange. -/
theorem Exchange.Occurs.invariant {P : World K N V σ B → Prop} {w w₁ : World K N V σ B}
    {x : Exchange K N V σ B} (h : x.Occurs body w w₁)
    (hstep : ∀ {m m' : Machine K N V σ B}, m.step body = some m' → P m.world → P m'.world)
    (hw : P w) : P w₁ := by
  obtain ⟨n, rfl⟩ := h.run
  exact Machine.run_invariant hstep hw n

end Runs

/-! ### Beginning and end of an exchange -/

/-- An exchange is addressed to the image of the cache that it is addressed to. -/
theorem World.Image.addressee [DecidableEq K] [MulAction Renaming V] {π : Renaming} {c : CacheId}
    {w w' : World K N V σ B} (h : w.Image π c w') {x : Exchange K N V σ B}
    (hx : w.addressee x = some c) : w'.addressee (π • x) = some (π • c) := by
  cases x with
  | request r a => exact h.target hx
  | got d k outcome => exact congrArg (π • ·) hx
  | raced d k threads outcomes => exact congrArg (π • ·) hx
  | built y k answer => exact h.parent hx
  | broken y k message => exact h.parent hx
  | inspected d cache => exact congrArg (π • ·) hx
  | inspectedContext y context => exact h.parent hx

section Twins

variable [MulAction Renaming V] {π : Renaming} {c : CacheId} {w w' : World K N V σ B}

omit [MulAction Renaming V] in
/-- Every error is the image of an error. -/
theorem RequestError.smul_surjective (e : RequestError) : ∃ e' : RequestError, π • e' = e := by
  cases e with
  | failure f =>
      obtain ⟨⟨n⟩ | ⟨n⟩, message⟩ := f
      · refine ⟨.failure ⟨.counted ((π .failure).symm n), message⟩, ?_⟩
        exact congrArg (fun i => RequestError.failure ⟨.counted i, message⟩)
          ((π .failure).apply_symm_apply n)
      · exact ⟨.failure ⟨.uncounted n, message⟩, rfl⟩
  | violation e => exact ⟨.violation e, rfl⟩
  | conflict k => exact ⟨.conflict k, rfl⟩

/-- Every answer within a pass is the renamed form of one. -/
theorem smul_answer_surjective (a : Except RequestError (Option V)) :
    ∃ a' : Except RequestError (Option V), π • a' = a := by
  cases a with
  | error e =>
      obtain ⟨e', rfl⟩ := RequestError.smul_surjective (π := π) e
      exact ⟨.error e', rfl⟩
  | ok v => exact ⟨.ok (π⁻¹ • v), congrArg Except.ok (smul_inv_smul π v)⟩

omit [MulAction Renaming V] in
/-- A recipe that does nothing does nothing under other numbers. -/
theorem Recipe.Renamed.of_halt [SMul Renaming V] {S : Supply σ} {r r' : Recipe K V}
    {x y : ContextId} (h : r.Renamed π r')
    (hr : r.routine S x = (.halt : Body K N V σ B)) :
    r'.routine S y = (.halt : Body K N V σ B) := by
  cases h with
  | halt => rfl
  | _ => simp [routine] at hr

namespace Focus.Twin

variable {S : Supply σ} {focus focus' : Focus K N V σ B}

/-- A panic is one in the image as well. -/
theorem of_panic (h : focus.Twin S π c w w' focus') {message : String}
    (hfocus : focus = .run (.panic message)) : focus' = .run (.panic message) := by
  cases h with
  | recipe parent renamed => cases renamed <;> simp_all [Recipe.routine]
  | unwind message => exact hfocus
  | _ => simp at hfocus

/-- An answer is given to whoever waits for nothing else. -/
theorem of_reply (h : focus.Twin S π c w w' focus') {x : ContextId} {k : K}
    {answer : Except RequestError (Option V)}
    (hfocus : focus = .reply x k answer (.routine fun _ => .halt)) :
    focus' = .reply (π • x) k (π • answer) (.routine fun _ => .halt) := by
  cases h with
  | reply parent k answer asks =>
      cases asks with
      | routine after =>
          rename_i next next'
          simp only [Focus.reply.injEq, Asker.routine.injEq] at hfocus
          obtain ⟨rfl, rfl, rfl, hnext⟩ := hfocus
          have hhalt (y : ContextId) (a : Except RequestError (Option V)) :
              (next' a).routine S y = (.halt : Body K N V σ B) := by
            obtain ⟨a', rfl⟩ := smul_answer_surjective (π := π) a
            exact (after a').of_halt (congrFun hnext a')
          simp only [hhalt]
      | pass cache receives => simp at hfocus
  | _ => simp at hfocus

end Focus.Twin

namespace Machine.Twin

variable [DecidableEq K] {S : Supply σ} {m' : Machine K N V σ B} {k : K}

/-- Machines at the start of an exchange. -/
theorem get (h : w.Image π c w') (k : K) : Machine.Twin S π c (.start w (.get c k fun _ => .halt))
    (.start w' (.get (π • c) k fun _ => .halt)) :=
  ⟨h, .get k, .nil⟩

/-- A race in a world and its image are twins. -/
theorem race (h : w.Image π c w') (k : K) (n : ℕ) :
    Machine.Twin S π c (.start w (.race c k n fun _ => .halt))
      (.start w' (.race (π • c) k n fun _ => .halt)) :=
  ⟨h, .race k n, .nil⟩

/-- A request within a pass in a world and its image are twins. -/
theorem build (h : w.Image π c w') {x : ContextId} (hx : w.parent? x = some c) (k : K) :
    Machine.Twin S π c (.start w (.build x k fun _ => .halt))
      (.start w' (.build (π • x) k fun _ => .halt)) := by
  have hrenamed : (Recipe.request k fun _ => .halt : Recipe K V).Renamed π
      (.request k fun _ => .halt) := .request k fun _ => .halt
  exact ⟨h, .recipe hx hrenamed, .nil⟩

/-- Machines at the end of an exchange. -/
theorem delivered {outcome : Outcome V}
    (h : Machine.Twin S π c ⟨w, .deliver c k outcome (.caller fun _ => .halt), []⟩ m') :
    m' = ⟨m'.world, .deliver (π • c) k (π • outcome) (.caller fun _ => .halt), []⟩ := by
  obtain ⟨w', focus', stack'⟩ := m'
  obtain ⟨-, hfocus, hstack⟩ := h
  obtain rfl := List.forall₂_nil_left_iff.1 hstack
  cases hfocus with
  | deliver _ _ receives => cases receives; rfl

/-- The twin of a machine whose threads have all come back. -/
theorem woken {outcomes : List (Outcome V)}
    (h : Machine.Twin S π c ⟨w, .wake c k [] outcomes fun _ => .halt, []⟩ m') :
    m' = ⟨m'.world, .wake (π • c) k [] (outcomes.map (π • ·)) fun _ => .halt, []⟩ := by
  obtain ⟨w', focus', stack'⟩ := m'
  obtain ⟨-, hfocus, hstack⟩ := h
  obtain rfl := List.forall₂_nil_left_iff.1 hstack
  cases hfocus
  rfl

/-- The twin of a machine whose request within a pass has its answer. -/
theorem replied {x : ContextId} {answer : Except RequestError (Option V)}
    (h : Machine.Twin S π c ⟨w, .reply x k answer (.routine fun _ => .halt), []⟩ m') :
    m' = ⟨m'.world, .reply (π • x) k (π • answer) (.routine fun _ => .halt), []⟩ := by
  obtain ⟨w', focus', stack'⟩ := m'
  obtain ⟨-, hfocus, hstack⟩ := h
  obtain rfl := List.forall₂_nil_left_iff.1 hstack
  obtain rfl := hfocus.of_reply rfl
  rfl

/-- The twin of a machine that a panic has unwound. -/
theorem panicked {message : String}
    (h : Machine.Twin S π c ⟨w, .run (.panic message), []⟩ m') :
    m' = ⟨m'.world, .run (.panic message), []⟩ := by
  obtain ⟨w', focus', stack'⟩ := m'
  obtain ⟨-, hfocus, hstack⟩ := h
  obtain rfl := List.forall₂_nil_left_iff.1 hstack
  obtain rfl := hfocus.of_panic rfl
  rfl

end Machine.Twin

end Twins

end DerivationCache
