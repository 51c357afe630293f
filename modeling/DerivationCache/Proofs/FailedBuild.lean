import DerivationCache.Proofs.CommitDecision
import DerivationCache.Proofs.KeyCourse
import Mathlib.Tactic.IntervalCases

/-!
# Failed builds

When a builder fails, nothing is done about its key. The key was marked pending before the builder
was called, so it is still in flight, and as long as it is, its context cannot be committed. Only a
value that is recorded for the key, or a clear, takes the key out of flight.

That value may have been recorded by the failed builder itself, before it failed. Then the key is
not in flight, the pass can be committed, and what is published for the key is the value of a build
that failed (`AddedThenFailed.failed_build_published`). So the exact statement is an equivalence:
after a failed build the key is in flight if and only if no value has been recorded for it since the
builder was called (`in_flight_iff`).

## Main results

* `World.InFlight.blocks`: what a key in flight does to its context.
* `in_flight_iff`: how long a key stays in flight once its builder was called.
* `failed_build_blocks`: what a failed build leaves behind, and what this does to the pass.
* `AddedThenFailed.failed_build_published`: a value that a builder recorded before it failed is
  published.
-/

namespace DerivationCache

variable {K N V σ B : Type}

/-- The violation is that a key was in flight at a commit. -/
def Violation.OfInFlight : Violation → Prop
  | .pendingAtCommit _ => True
  | .unresolvedPlaceholder _ => True
  | _ => False

namespace Context

/-- A commit is refused because keys are in flight, and for no other reason. -/
theorem ofInFlight_of_refusal [DecidableEq K] [ToString K] {x : Context K V σ B} {e : Violation}
    (h : x.refusal = some e) : e.OfInFlight := by
  cases namesInFlight_of_refusal h <;> trivial

end Context

/-! ### Keys in flight -/

namespace World

variable [DecidableEq K]

/-- The key was requested within the pass of the context, and no value is recorded for it. -/
def InFlight (w : World K N V σ B) (x : ContextId) (k : K) : Prop :=
  ∃ s, w.keyState x k = some s ∧ s.value? = none

/-- What a key in flight does to its context: the key is counted as such and has no value, and a
commit is refused because of it. -/
structure Blocked [BEq V] [ToString K] (w : World K N V σ B) (x : ContextId) (k : K) : Prop where
  counted : ∃ context s, w.context? x = some context ∧ (k, s) ∈ context.inFlight ∧
    0 < context.pendingSize ∧ context.contains k = false
  refused : ∃ e, w.commit x = some (.error e, w) ∧ e.OfInFlight

variable {w w' : World K N V σ B} {d : Demand K V} {x : ContextId} {k : K}

/-- A key in flight has no value. -/
theorem InFlight.not_resolved (h : w.InFlight x k) : w.stage x k ≠ .resolved := by
  obtain ⟨s, hs, hvalue⟩ := h
  rw [stage, hs]
  cases s with
  | resolved v => simp [Entry.value?] at hvalue
  | pending => simp [Entry.stage]
  | placeholderIssued p => simp [Entry.stage]

/-- A key in flight keeps its context from being committed. -/
theorem InFlight.blocks [BEq V] [ToString K] (h : w.InFlight x k) : w.Blocked x k := by
  obtain ⟨s, hs, hvalue⟩ := h
  obtain ⟨context, hx, hs⟩ := Option.bind_eq_some_iff.1 hs
  have hmem : (k, s) ∈ context.inFlight := Context.mem_inFlight.2 ⟨hs, hvalue⟩
  have hnone : context.get? k = none := by rw [Context.get?, hs, Option.bind_some, hvalue]
  refine ⟨⟨context, s, hx, hmem, List.length_pos_of_mem hmem, ?_⟩, ?_⟩
  · rw [Context.contains, hnone]
    rfl
  · cases hrefusal : context.refusal with
    | none => exact absurd ⟨s, hs, hvalue⟩ (context.refusal_eq_none_iff_settled.1 hrefusal k)
    | some e =>
        exact ⟨e, commit_of_refusal hx hrefusal, Context.ofInFlight_of_refusal hrefusal⟩

/-- A key in flight stays so until a value is recorded for it. -/
theorem InFlight.lasts (h : w.InFlight x k) (hobeys : w.Obeys w' d) (hd : d ≠ .clear x) :
    w'.InFlight x k ∨ ∃ v overwrite, d = .record x k v overwrite ∧
      w'.keyState x k = some (.resolved v) := by
  obtain ⟨s, hs, hvalue⟩ := h
  obtain ⟨e, hshift, hpermits, -⟩ := hobeys.shift
  rcases hshift.state_lasts hs with hsame | ⟨s', hwrites, hs'⟩ | rfl
  · exact Or.inl ⟨s, hsame, hvalue⟩
  · cases e with
    | mark y l =>
        obtain ⟨-, -, rfl⟩ : y = x ∧ l = k ∧ .pending = s' := by
          simpa [Effect.writes] using hwrites
        exact Or.inl ⟨_, hs', rfl⟩
    | issue y l p =>
        obtain ⟨-, -, rfl⟩ : y = x ∧ l = k ∧ .placeholderIssued p = s' := by
          simpa [Effect.writes] using hwrites
        exact Or.inl ⟨_, hs', rfl⟩
    | record y l v =>
        obtain ⟨rfl, rfl, rfl⟩ : y = x ∧ l = k ∧ .resolved v = s' := by
          simpa [Effect.writes] using hwrites
        obtain ⟨overwrite, hdemand, -⟩ := hpermits
        exact Or.inr ⟨v, overwrite, hdemand, hs'⟩
    | _ => simp [Effect.writes] at hwrites
  · exact absurd hpermits hd

end World

/-! ### Failures -/

/-- The builder call for the key, within the pass of the context, returns this error now. -/
def Machine.FailsFor (m : Machine K N V σ B) (x : ContextId) (k : K) (err : RequestError) : Prop :=
  m.focus = .run (.done (.error err)) ∧
    ∃ frame rest, m.stack = frame :: rest ∧ frame.context = x ∧ frame.key = k

section Steps

variable [DecidableEq K] [DecidableEq N] [BEq V] [ToString K]
  {body : B → ContextId → K → Body K N V σ B}

/-- The failure is passed on, and nothing else happens. -/
theorem Machine.FailsFor.passes {m m' : Machine K N V σ B} {x : ContextId} {k : K}
    {err : RequestError} (h : m.FailsFor x k err) (hstep : m.step body = some m') :
    m'.world = m.world ∧ ∃ asker, m'.focus = .reply x k (.error err) asker := by
  obtain ⟨hfocus, frame, rest, hstack, rfl, rfl⟩ := h
  rw [step, hfocus] at hstep
  simp only [stepRun, hstack] at hstep
  obtain rfl := Option.some.inj hstep
  exact ⟨rfl, frame.asker, rfl⟩

/-- A pass whose context cannot be committed ends with an error, and publishes nothing. -/
theorem World.Blocked.pass_ends {m m' : Machine K N V σ B} {x : ContextId} {k l : K}
    (h : m.world.Blocked x k) {answer : Except RequestError (Option V)} {p : Pass K}
    {receiver : Receiver K N V σ B} (hfocus : m.focus = .reply x l answer (.pass p receiver))
    (hstep : m.step body = some m') :
    (∃ err, m'.focus = .deliver p.cache p.key (.returned (.error err)) receiver) ∧
      ∀ c j, m'.world.stored c j = m.world.stored c j := by
  obtain ⟨w, focus, stack⟩ := m
  obtain rfl : focus = .reply x l answer (.pass p receiver) := hfocus
  obtain ⟨e, hrefused, -⟩ := h.refused
  cases Transition.of_step hstep with
  | passFailed e' idles => exact ⟨⟨e', rfl⟩, idles.stored⟩
  | committed commit idles => simp [hrefused] at commit
  | conflictSettled commit stored idles => simp [hrefused] at commit
  | conflictRetried commit => simp [hrefused] at commit

end Steps

/-! ### Runs -/

section Runs

variable [DecidableEq K] [DecidableEq N] [BEq V] [ToString K]
  {body : B → ContextId → K → Body K N V σ B}

/-- A step of the run records a value for the key in the context. -/
def RecordedAt (e : Interleaving body) (i : Nat) (x : ContextId) (k : K) : Prop :=
  ∃ v overwrite, (e.state i).demand = .record x k v overwrite ∧
    (e.state (i + 1)).world.keyState x k = some (.resolved v)

/-- What the build of a key that was called at one moment and failed at another one leaves behind,
up to a last moment. -/
structure FailedBuild (e : Interleaving body) (x : ContextId) (k : K) (err : RequestError)
    (i n last : Nat) : Prop where
  /-- The failure is passed on, and nothing else happens. -/
  passed_on : ∀ m, (e.state n).step body = some m → m.world = (e.state n).world ∧
    ∃ asker, m.focus = .reply x k (.error err) asker
  in_flight_iff : ∀ j, n < j → j ≤ last →
    ((e.state j).world.InFlight x k ↔ ∀ l, i < l → l < j → ¬ RecordedAt e l x k)
  blocked : ∀ j, n < j → j ≤ last → (e.state j).world.InFlight x k → (e.state j).world.Blocked x k
  pass_ends : ∀ j l answer p receiver m, n < j → j ≤ last → (e.state j).world.InFlight x k →
    (e.state j).focus = .reply x l answer (.pass p receiver) → (e.state j).step body = some m →
    (∃ err', m.focus = .deliver p.cache p.key (.returned (.error err')) receiver) ∧
      ∀ c l, m.world.stored c l = (e.state j).world.stored c l

variable (e : Interleaving body) {x : ContextId} {k : K} {i last : Nat}
variable (hlength : last ≤ e.length) (called : (e.state i).CallsFor x k)
variable (uncleared : ∀ j, i ≤ j → j < last → (e.state j).demand ≠ .clear x)
include hlength called uncleared

/-- Once its builder was called, a key is in flight as long as no value is recorded for it. -/
theorem in_flight_iff {j : Nat} (hij : i < j) (hj : j ≤ last) :
    (e.state j).world.InFlight x k ↔ ∀ l, i < l → l < j → ¬ RecordedAt e l x k := by
  constructor
  · rintro h l hil hlj ⟨v, overwrite, -, hv⟩
    have hle := stage_forward e hlength uncleared k (Nat.le_trans (Nat.le_of_lt hil)
      (Nat.le_succ l)) hlj hj
    rw [Nat.succ_eq_add_one, World.stage, hv] at hle
    exact h.not_resolved (Stage.eq_resolved_of_le hle)
  · intro hnone
    refine e.lasts (P := fun m => m.world.InFlight x k) hij ?_ fun l hil hlj h => ?_
    · obtain ⟨m, hm, hworld⟩ :=
        e.goes i (Nat.lt_of_lt_of_le hij (Nat.le_trans hj hlength))
      obtain ⟨-, hpending⟩ := called.stages hm
      rw [Nat.succ_eq_add_one, hworld]
      rw [World.stage] at hpending
      cases hs : m.world.keyState x k with
      | none => simp [hs, Entry.stage] at hpending
      | some s => cases s <;> simp [hs, Entry.stage] at hpending; exact ⟨_, hs, rfl⟩
    · have hl : l < last := Nat.lt_of_lt_of_le hlj hj
      have hil' : i ≤ l := Nat.le_of_succ_le hil
      rcases h.lasts (interleaving_obeys e (Nat.lt_of_lt_of_le hl hlength))
        (uncleared l hil' hl) with h | hrecorded
      · exact h
      · exact absurd hrecorded (hnone l hil hlj)

/-- What a failed build leaves behind. As long as no value was recorded for the key since its
builder was called, be it by the builder itself or later, the key is in flight. Then it is counted
as such, every commit of the context is refused because of it, and a pass of the context ends with
an error and publishes nothing. -/
theorem failed_build_blocks {n : Nat} {err : RequestError} (failed : (e.state n).FailsFor x k err)
    (hin : i < n) : FailedBuild e x k err i n last where
  passed_on _ hm := failed.passes hm
  in_flight_iff _ hnj hj :=
    in_flight_iff e hlength called uncleared (Nat.lt_trans hin hnj) hj
  blocked _ _ _ h := h.blocks
  pass_ends _ _ _ _ _ _ _ _ h hfocus hm := h.blocks.pass_ends hfocus hm

end Runs

/-! ### A dependency that fails, and one that fails too late -/

namespace CaughtFailure

/-- Key zero needs key one, and makes do without it. Key one needs itself and key two, and then
fails. -/
def body (_ : Unit) (x : ContextId) (k : Nat) : Body Nat Unit Nat Unit Unit :=
  match k with
  | 0 => .build x 1 fun _ => .done (.ok 3)
  | 1 => .build x 1 fun _ => .build x 2 fun _ => .done (.error (.failure ⟨.counted 1, "late"⟩))
  | _ => .done (.ok 5)

/-- Stand-ins are told apart by their cells. -/
def config : Config Nat Nat Unit Unit where
  makeBuilder := some fun client => ((), client)
  placeholders := some fun _ cell client => ((.forwarding, 100 + cell.index), client)

/-- A cache is made, and key zero requested. -/
def main : Machine Nat Unit Nat Unit Unit :=
  .start { client := () } (.perform (.newCache config) fun c => .get c 0 .done)

theorem main_runs : ∀ i < 17, ((main.run body i).step body).isSome = true := by
  decide +kernel

/-- The pass of key zero. -/
def session : Interleaving body :=
  main.runExecution 17 ⟨(), rfl⟩ (fun _ m' h => ⟨m', h, rfl⟩) main_runs

/-- The pass of key zero is given up, since key one is in flight. -/
theorem session_blocked :
    (session.state 5).CallsFor ⟨0⟩ 1 ∧
      (session.state 13).FailsFor ⟨0⟩ 1 (.failure ⟨.counted 1, "late"⟩) ∧
      (∀ j, 5 ≤ j → j < 17 → (session.state j).demand ≠ .clear ⟨0⟩) ∧
      FailedBuild session ⟨0⟩ 1 (.failure ⟨.counted 1, "late"⟩) 5 13 17 := by
  have called : (session.state 5).CallsFor ⟨0⟩ 1 := ⟨⟨_, rfl⟩, rfl⟩
  have failed : (session.state 13).FailsFor ⟨0⟩ 1 (.failure ⟨.counted 1, "late"⟩) :=
    ⟨rfl, _, _, rfl, rfl, rfl⟩
  have uncleared : ∀ j < 17, (session.state j).demand ≠ .clear ⟨0⟩ := by
    decide +kernel
  have hlength : 17 ≤ session.length := Nat.le_refl _
  exact ⟨called, failed, fun j _ => uncleared j,
    failed_build_blocks session hlength called (fun j _ => uncleared j) failed (by decide)⟩

end CaughtFailure

namespace AddedThenFailed

/-- Key zero needs key one, and makes do without it. Key one says its value, and then fails. -/
def body (_ : Unit) (x : ContextId) (k : Nat) : Body Nat Unit Nat Unit Unit :=
  match k with
  | 0 => .build x 1 fun _ => .done (.ok 3)
  | _ => .perform (.record x k 7 false) fun _ =>
      .done (.error (.failure ⟨.counted 1, "late"⟩))

/-- A cache is made, and key zero requested. -/
def main : Machine Nat Unit Nat Unit Unit :=
  .start { client := () } (.perform (.newCache CaughtFailure.config) fun c => .get c 0 .done)

theorem main_runs : ∀ i < 12, ((main.run body i).step body).isSome = true := by
  decide +kernel

/-- The pass of key zero. -/
def session : Interleaving body :=
  main.runExecution 12 ⟨(), rfl⟩ (fun _ m' h => ⟨m', h, rfl⟩) main_runs

/-- Key one fails, nothing is recorded for it from then on, and yet it is not in flight: the pass
of key zero is committed, and publishes the value that key one had said. -/
theorem failed_build_published :
    (session.state 5).CallsFor ⟨0⟩ 1 ∧
      (session.state 7).FailsFor ⟨0⟩ 1 (.failure ⟨.counted 1, "late"⟩) ∧
      (∀ j, 5 ≤ j → j < 12 → (session.state j).demand ≠ .clear ⟨0⟩) ∧
      (∀ j, 7 ≤ j → j < 12 → ¬ RecordedAt session j ⟨0⟩ 1) ∧
      ¬ (session.state 8).world.InFlight ⟨0⟩ 1 ∧
      (∃ w, (session.state 10).world.commit ⟨0⟩ = some (.ok true, w)) ∧
      (session.state 10).world.stored ⟨0⟩ 1 = none ∧
      (session.state 11).world.stored ⟨0⟩ 1 = some 7 := by
  have uncleared : ∀ j < 12, (session.state j).demand ≠ .clear ⟨0⟩ := by decide +kernel
  refine ⟨⟨⟨_, rfl⟩, rfl⟩, ⟨rfl, _, _, rfl, rfl, rfl⟩, fun j _ => uncleared j, ?_, ?_,
    ⟨_, rfl⟩, rfl, rfl⟩
  · rintro j hj hj' ⟨v, overwrite, hdemand, -⟩
    interval_cases j <;> cases hdemand
  · rintro ⟨s, hs, hvalue⟩
    have hresolved : (session.state 8).world.keyState ⟨0⟩ 1 = some (.resolved 7) := rfl
    obtain rfl := Option.some.inj (hresolved.symm.trans hs)
    simp [Entry.value?] at hvalue

end AddedThenFailed

end DerivationCache
