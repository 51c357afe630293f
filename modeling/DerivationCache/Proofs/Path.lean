import DerivationCache.Proofs.Transition

/-!
# Paths

A `Machine.Path` is a finite piece of a run, with the machines that it goes through. Steps are a
function, so a path says all that happens on the way: that the run comes to its last machine, and
what is called meanwhile. What the next step of a machine calls is read off the machine:

* `Machine.called?`: the key whose builder is called,
* `Machine.issued?`: the key for which a placeholder is asked for,
* `Machine.startsPass`: whether a pass is started,
* `Machine.Reenters`: whether a key is requested while its own builder call is running.

## Main results

* `Machine.Path.run`: a path is what `Machine.run` goes through.
* `Machine.Path.trans`: paths compose.
* `Machine.Path.grows`: whatever is published on the way is published at the end.
-/

namespace DerivationCache

variable {K N V σ B : Type} [DecidableEq K] [DecidableEq N] [BEq V] [ToString K]

namespace Machine

/-- The first machine comes to the last one by steps, and goes through the listed machines on
the way, itself included. -/
inductive Path (body : B → ContextId → K → Body K N V σ B) :
    Machine K N V σ B → List (Machine K N V σ B) → Machine K N V σ B → Prop
  | here {m} : Path body m [] m
  | step {m m' n ms} (made : m.step body = some m') (rest : Path body m' ms n) :
      Path body m (m :: ms) n

namespace Path

variable {body : B → ContextId → K → Body K N V σ B} {m m' n : Machine K N V σ B}
  {ms ms' : List (Machine K N V σ B)}

/-- A single step is a path. -/
theorem one (h : m.step body = some m') : Path body m [m] m' := .step h .here

/-- Paths can be joined. -/
theorem trans (h : Path body m ms m') (h' : Path body m' ms' n) : Path body m (ms ++ ms') n := by
  induction h with
  | here => exact h'
  | step made _ ih => exact .step made (ih h')

/-- A path is what a run goes through. -/
theorem run (h : Path body m ms n) : Machine.run body ms.length m = n := by
  induction h with
  | here => rfl
  | step made _ ih =>
      rw [List.length_cons, Machine.run, made]
      exact ih

/-- Whatever is published on the way is published at the end. -/
theorem grows (h : Path body m ms n) :
    m.world.Grows n.world ∧ ∀ o ∈ ms, o.world.Grows n.world := by
  induction h with
  | here => exact ⟨World.Grows.refl _, by simp⟩
  | @step m m' n ms made _ ih =>
      have hstep := (Transition.of_step made).obeys.grows
      have hfirst := hstep.trans ih.1
      refine ⟨hfirst, fun o ho => ?_⟩
      rcases List.mem_cons.1 ho with rfl | ho
      · exact hfirst
      · exact ih.2 o ho

end Path

/-! ### What a step calls -/

omit [DecidableEq N] [BEq V] in
/-- The key whose builder the next step calls. -/
def called? (m : Machine K N V σ B) : Option K :=
  match m.focus with
  | .ask x k _ =>
    match m.world.lookup x k with
    | some (.build _, _) => some k
    | _ => none
  | _ => none

omit [DecidableEq N] [BEq V] in
/-- The key for which the next step asks for a placeholder: it is pending, and is marked as
answered with a placeholder by the request. -/
def issued? (m : Machine K N V σ B) : Option K :=
  match m.focus with
  | .ask x k _ =>
    match m.world.keyState x k, m.world.lookup x k with
    | some .pending, some (_, w) =>
      match w.keyState x k with
      | some (.placeholderIssued _) => some k
      | _ => none
    | _, _ => none
  | _ => none

section Issued

variable (w : World K N V σ B) (stack : List (Frame K N V σ B))

omit [DecidableEq N] [BEq V] in
/-- No stand-in is issued when a routine goes on. -/
@[simp] theorem issued?_run (b : Body K N V σ B) :
    (⟨w, .run b, stack⟩ : Machine K N V σ B).issued? = none := rfl

omit [DecidableEq N] [BEq V] in
/-- No stand-in is issued when a request is replied to. -/
@[simp] theorem issued?_reply (x : ContextId) (k : K) (answer : Except RequestError (Option V))
    (asker : Asker K N V σ B) :
    (⟨w, .reply x k answer asker, stack⟩ : Machine K N V σ B).issued? = none := rfl

omit [DecidableEq N] [BEq V] in
/-- No stand-in is issued when a pass is started. -/
@[simp] theorem issued?_attempt (p : Pass K) (receiver : Receiver K N V σ B) :
    (⟨w, .attempt p receiver, stack⟩ : Machine K N V σ B).issued? = none := rfl

omit [DecidableEq N] [BEq V] in
/-- No stand-in is issued when an outcome is delivered. -/
@[simp] theorem issued?_deliver (c : CacheId) (k : K) (outcome : Outcome V)
    (receiver : Receiver K N V σ B) :
    (⟨w, .deliver c k outcome receiver, stack⟩ : Machine K N V σ B).issued? = none := rfl

end Issued

/-- Whether the next step starts a pass. -/
def startsPass (m : Machine K N V σ B) : Bool :=
  match m.focus with
  | .attempt p _ => p.left != 0
  | _ => false

/-- The key is requested within the pass that its own builder call, still in progress, belongs
to. -/
def Reenters (m : Machine K N V σ B) (k : K) : Prop :=
  ∃ x asker, m.focus = .ask x k asker ∧ ∃ frame ∈ m.stack, frame.context = x ∧ frame.key = k

/-- The keys whose builders are called on the way, in this order. -/
def calls (ms : List (Machine K N V σ B)) : List K := ms.filterMap called?

/-- The keys for which placeholders are asked for on the way, in this order. -/
def issues (ms : List (Machine K N V σ B)) : List K := ms.filterMap issued?

omit [DecidableEq N] [BEq V] in
/-- The calls of two paths that are joined. -/
@[simp] theorem calls_append (ms ms' : List (Machine K N V σ B)) :
    calls (ms ++ ms') = calls ms ++ calls ms' := List.filterMap_append ..

omit [DecidableEq N] [BEq V] in
/-- The stand-ins that two joined paths issue. -/
@[simp] theorem issues_append (ms ms' : List (Machine K N V σ B)) :
    issues (ms ++ ms') = issues ms ++ issues ms' := List.filterMap_append ..

omit [DecidableEq N] [BEq V] in
/-- The calls from the first machine on. -/
@[simp] theorem calls_cons (m : Machine K N V σ B) (ms : List (Machine K N V σ B)) :
    calls (m :: ms) = m.called?.toList ++ calls ms := by
  cases h : m.called? <;> simp [calls, h]

omit [DecidableEq N] [BEq V] in
/-- The stand-ins that are issued from the first machine on. -/
@[simp] theorem issues_cons (m : Machine K N V σ B) (ms : List (Machine K N V σ B)) :
    issues (m :: ms) = m.issued?.toList ++ issues ms := by
  cases h : m.issued? <;> simp [issues, h]

omit [DecidableEq N] [BEq V] in
@[simp] theorem calls_nil : calls ([] : List (Machine K N V σ B)) = [] := rfl

omit [DecidableEq N] [BEq V] in
@[simp] theorem issues_nil : issues ([] : List (Machine K N V σ B)) = [] := rfl

omit [DecidableEq K] [DecidableEq N] [BEq V] [ToString K] in
/-- A request reenters the key that it asks for, if a builder of that key is running in the same
pass. -/
theorem reenters_ask {w : World K N V σ B} {x : ContextId} {k l : K} {asker : Asker K N V σ B}
    {stack : List (Frame K N V σ B)} :
    (⟨w, .ask x k asker, stack⟩ : Machine K N V σ B).Reenters l ↔
      l = k ∧ ∃ frame ∈ stack, frame.context = x ∧ frame.key = k := by
  constructor
  · rintro ⟨y, asker', hfocus, hframe⟩
    obtain ⟨rfl, rfl, -⟩ := Focus.ask.inj hfocus
    exact ⟨rfl, hframe⟩
  · rintro ⟨rfl, hframe⟩
    exact ⟨x, asker, rfl, hframe⟩

/-- The next step calls nothing, and requests nothing within a pass. -/
structure Silent (m : Machine K N V σ B) : Prop where
  called : m.called? = none
  issued : m.issued? = none
  reenters : ∀ k, ¬ m.Reenters k

omit [DecidableEq N] [BEq V] in
/-- Only requests within a pass call anything. -/
theorem silent_of_focus {m : Machine K N V σ B}
    (h : ∀ x k asker, m.focus ≠ .ask x k asker) : m.Silent := by
  obtain ⟨w, focus, stack⟩ := m
  cases focus with
  | ask x k asker => exact absurd rfl (h x k asker)
  | _ => exact ⟨rfl, rfl, fun k ⟨x, asker, hfocus, _⟩ => by simp at hfocus⟩

omit [DecidableEq N] [BEq V] in
/-- Silent machines call no builder. -/
theorem calls_eq_nil {ms : List (Machine K N V σ B)} (h : ∀ m ∈ ms, m.Silent) : calls ms = [] :=
  List.filterMap_eq_nil_iff.2 fun m hm => (h m hm).called

omit [DecidableEq N] [BEq V] in
/-- Silent machines issue no stand-in. -/
theorem issues_eq_nil {ms : List (Machine K N V σ B)} (h : ∀ m ∈ ms, m.Silent) : issues ms = [] :=
  List.filterMap_eq_nil_iff.2 fun m hm => (h m hm).issued

end Machine

/-- What a machine does while a pass is running: it runs a builder, or deals with a request within
the pass. -/
def Focus.Inside : Focus K N V σ B → Prop
  | .run _ => True
  | .ask .. => True
  | .reply .. => True
  | _ => False

omit [DecidableEq K] [DecidableEq N] [BEq V] [ToString K] in
/-- No other pass is started meanwhile. -/
theorem Focus.Inside.startsPass {m : Machine K N V σ B} (h : m.focus.Inside) :
    m.startsPass = false := by
  obtain ⟨w, focus, stack⟩ := m
  cases focus with
  | attempt p receiver => exact h.elim
  | _ => rfl

end DerivationCache
