import DerivationCache.Proofs.Execution
import DerivationCache.Proofs.Posting

/-!
# The failure memo

A failure is remembered when the pass of a request fails with it, and forgotten when a value is
published for its key or when the failures of the cache are cleared. So one would expect that no key
has both a published value and a remembered failure. Publication does see to that. But the builder
of a key may publish a value for this very key, by another door, before it fails, and then the
failure is remembered beside the value (`Machine.FailsLate`). This is the only way.

## Main results

* `Posting.remembered_source`, `Posting.remembered_lasts`: where remembered failures come from, and
  how long they stay.
* `Posting.ends_failure`: a request ends with a failure that is replayed, or that its pass has just
  failed with.
* `memo_overlaps_iff`: when a key has both a value and a remembered failure.
-/

namespace DerivationCache

variable {K N V σ B : Type} [DecidableEq K]

/-! ### Steps and the memo -/

namespace Machine

/-- The pass of a request for the key has failed, and the failure is about to be delivered. -/
def Fails (m : Machine K N V σ B) (c : CacheId) (k : K) (f : Failure) : Prop :=
  ∃ x l p receiver, m.focus = .reply x l (.error (.failure f)) (.pass p receiver) ∧
    p.cache = c ∧ p.key = k

/-- The next step has the failures of a cache forgotten. -/
def Clears (m : Machine K N V σ B) (c : CacheId) : Prop :=
  ∃ next, m.focus = .run (.perform (.clearFailures c) next)

/-- The pass of a request has failed for a key that is published by now, in a cache that remembers
failures. -/
def FailsLate (m : Machine K N V σ B) (c : CacheId) (k : K) : Prop :=
  m.world.Caches c ∧ (∃ v, m.world.stored c k = some v) ∧ ∃ f, m.Fails c k f

end Machine

namespace Posting

variable {m m' : Machine K N V σ B} {c : CacheId} {k : K}

/-- A remembered failure was remembered before, or a pass has just failed with it, in a cache that
remembers failures. -/
theorem remembered_source (h : Posting m m') {f : Failure}
    (hf : m'.world.remembered c k = some f) :
    m.world.remembered c k = some f ∨
      (m.Fails c k f ∧ m.world.Caches c ∧ m.world.remembered c k = none) := by
  cases h with
  | kept accounts threads held waiting unclaimed answers =>
      exact Or.inl ((World.remembered_of_account (accounts c k)).symm.trans hf)
  | raced n fresh outcomes next accounts threads held started before after waiting answers =>
      exact Or.inl ((World.remembered_of_account (accounts c k)).symm.trans hf)
  | filled fills held waiting quiet =>
      rw [← World.account_failure] at hf
      have hsame := (fills.accounts c k).failure_source hf
      exact Or.inl ((World.remembered_of_account hsame).symm.trans (by simpa using hf))
  | forgot d next focus accounts threads held waiting quiet =>
      rw [← World.account_failure, accounts] at hf
      split at hf
      · simp at hf
      · exact Or.inl (by simpa using hf)
  | claimed d l thread receiver request free unpublished unreplayable updates focus stack =>
      rw [← World.account_failure, updates.field Account.failure fun _ => rfl] at hf
      exact Or.inl (by simpa using hf)
  | settled w p outcome receiver fills updates focus held waiting unfailed =>
      rw [← World.account_failure, updates.field Account.failure fun _ => rfl] at hf
      have hsame := (fills.accounts c k).failure_source hf
      exact Or.inl ((World.remembered_of_account hsame).symm.trans (by simpa using hf))
  | failed x l g p receiver memo reply focus remembers updates held waiting =>
      rw [← World.account_failure, updates.accounts] at hf
      split at hf
      · rename_i hck
        obtain ⟨rfl, rfl⟩ := hck
        rcases (remembers f).1 hf with hold | ⟨hcaches, hnone, rfl⟩
        · exact Or.inl hold
        · exact Or.inr ⟨⟨x, l, p, receiver, reply, rfl, rfl⟩, hcaches, hnone⟩
      · exact Or.inl (by simpa using hf)

/-- No value is published for a key whose failure is remembered afterwards. -/
theorem stored_of_remembered (h : Posting m m') {f : Failure}
    (hf : m'.world.remembered c k = some f) : m'.world.stored c k = m.world.stored c k := by
  rw [← World.account_failure] at hf
  rw [← World.account_value, ← World.account_value]
  cases h with
  | kept accounts threads held waiting unclaimed answers => rw [accounts]
  | raced n fresh outcomes next accounts threads held started before after waiting answers =>
      rw [accounts]
  | filled fills held waiting quiet => rw [(fills.accounts c k).failure_source hf]
  | forgot d next focus accounts threads held waiting quiet =>
      rw [accounts]
      split <;> rfl
  | claimed d l thread receiver request free unpublished unreplayable updates focus stack =>
      exact updates.field Account.value (fun _ => rfl) c k
  | settled w p outcome receiver fills updates focus held waiting unfailed =>
      rw [updates.field Account.failure fun _ => rfl] at hf
      rw [updates.field Account.value fun _ => rfl, (fills.accounts c k).failure_source hf]
  | failed x l g p receiver memo reply focus remembers updates held waiting =>
      exact updates.field Account.value (fun _ => rfl) c k

/-- A remembered failure stays until a value is published for the key, or until the failures of the
cache are forgotten. -/
theorem remembered_lasts (h : Posting m m') {f : Failure} (hf : m.world.remembered c k = some f) :
    m'.world.remembered c k = some f ∨
      (m.world.stored c k = none ∧ ∃ v, m'.world.stored c k = some v) ∨ m.Clears c := by
  simp only [← World.account_failure, ← World.account_value] at hf ⊢
  cases h with
  | kept accounts threads held waiting unclaimed answers => exact Or.inl (by rw [accounts, hf])
  | raced n fresh outcomes next accounts threads held started before after waiting answers =>
      exact Or.inl (by rw [accounts, hf])
  | filled fills held waiting quiet =>
      rcases (fills.accounts c k).failure_lasts with hsame | hpublished
      · exact Or.inl (hsame.trans hf)
      · exact Or.inr (Or.inl hpublished)
  | forgot d next focus accounts threads held waiting quiet =>
      by_cases hcd : c = d
      · subst hcd
        exact Or.inr (Or.inr ⟨next, focus⟩)
      · exact Or.inl (by rw [accounts, if_neg hcd, hf])
  | claimed d l thread receiver request free unpublished unreplayable updates focus stack =>
      exact Or.inl ((updates.field Account.failure (fun _ => rfl) c k).trans hf)
  | settled w p outcome receiver fills updates focus held waiting unfailed =>
      rw [updates.field Account.failure fun _ => rfl, updates.field Account.value fun _ => rfl]
      rcases (fills.accounts c k).failure_lasts with hsame | hpublished
      · exact Or.inl (hsame.trans hf)
      · exact Or.inr (Or.inl hpublished)
  | failed x l g p receiver memo reply focus remembers updates held waiting =>
      rw [updates.accounts]
      split
      · rename_i hck
        obtain ⟨rfl, rfl⟩ := hck
        rw [World.account_failure] at hf
        exact Or.inl ((remembers f).2 (Or.inl hf))
      · exact Or.inl hf

/-- A request ends with a failure that is replayed, or that its pass has just failed with. -/
theorem ends_failure (h : Posting m m') {f : Failure}
    (hends : m.Ends m' c k (.returned (.error (.failure f)))) :
    (m.world.stored c k = none ∧ m.world.replayable c k = some f ∧
        m'.world.account c k = m.world.account c k) ∨ m.Fails c k f := by
  have hreplayed (hanswers : m.world.Answers c k (.returned (.error (.failure f)))) :
      m.world.stored c k = none ∧ m.world.replayable c k = some f := by
    cases hanswers with
    | replayed f unpublished replayable => exact ⟨unpublished, replayable⟩
  cases h with
  | kept accounts threads held waiting unclaimed answers =>
      obtain ⟨hstored, hreplayable⟩ := hreplayed (answers c k _ hends)
      exact Or.inl ⟨hstored, hreplayable, accounts c k⟩
  | raced n fresh outcomes next accounts threads held started before after waiting answers =>
      obtain ⟨hstored, hreplayable⟩ := hreplayed (answers c k _ hends)
      exact Or.inl ⟨hstored, hreplayable, accounts c k⟩
  | filled fills held waiting quiet => exact absurd hends (quiet c k _)
  | forgot d next focus accounts threads held waiting quiet => exact absurd hends (quiet c k _)
  | claimed d l thread receiver request free unpublished unreplayable updates focus stack =>
      refine absurd hends (Machine.not_ends (fun _ _ _ _ hfocus => ?_) request.not_race c k _)
      simp [focus] at hfocus
  | settled w p outcome receiver fills updates focus held waiting unfailed =>
      rcases hends with ⟨receiver', hfocus⟩ | ⟨n, next, waiting', outcomes, -, hafter, -⟩
      · obtain ⟨-, -, houtcome, -⟩ := Focus.deliver.inj (focus.symm.trans hfocus)
        exact absurd houtcome (unfailed f)
      · simp [focus] at hafter
  | failed x l g p receiver memo reply focus remembers updates held waiting =>
      rcases hends with ⟨receiver', hfocus⟩ | ⟨n, next, waiting', outcomes, -, hafter, -⟩
      · obtain ⟨rfl, rfl, houtcome, -⟩ := Focus.deliver.inj (focus.symm.trans hfocus)
        obtain rfl : g = f := by simpa using houtcome
        exact Or.inr ⟨x, l, p, receiver, reply, rfl, rfl⟩
      · simp [focus] at hafter

variable [DecidableEq N] [BEq V] [ToString K] {body : B → ContextId → K → Body K N V σ B}

/-- The failure of a pass is delivered, and remembered if the cache remembers failures and has none
for the key, and the key is free again. -/
theorem of_fails {f : Failure} (hf : m.Fails c k f) (h : m.step body = some m') :
    m.Ends m' c k (.returned (.error (.failure f))) ∧
      m'.world.stored c k = m.world.stored c k ∧ m'.world.holder c k = none ∧
      (m.world.Caches c → m'.world.remembered c k = some ((m.world.remembered c k).getD f)) := by
  obtain ⟨x, l, p, receiver, hreply, rfl, rfl⟩ := hf
  have hfocus : m'.focus = .deliver p.cache p.key (.returned (.error (.failure f))) receiver := by
    simp only [Machine.step, hreply, Machine.stepReply, bind, Option.bind_eq_some_iff] at h
    obtain ⟨remembered, -, hsettle⟩ := h
    obtain ⟨w, -, rfl⟩ := Machine.settle_inv hsettle
    rfl
  have hends : m.Ends m' p.cache p.key (.returned (.error (.failure f))) := .delivered _ hfocus
  cases of_step h with
  | kept accounts threads held waiting unclaimed answers =>
      obtain ⟨thread, hrequest⟩ := unclaimed _ _ _ _ hfocus
      have hnone := hrequest.passes_eq_nil
      simp [hreply, Focus.passes, Asker.passes] at hnone
  | raced n fresh outcomes next accounts threads held started before after waiting answers =>
      simp [hfocus] at after
  | filled fills held waiting quiet => exact absurd hends (quiet _ _ _)
  | forgot d next focus accounts threads held waiting quiet => exact absurd hends (quiet _ _ _)
  | claimed d l thread receiver request free unpublished unreplayable updates focus stack =>
      simp [hfocus] at focus
  | settled w q outcome receiver' fills updates focus held waiting unfailed =>
      obtain ⟨-, -, houtcome, -⟩ := Focus.deliver.inj (focus.symm.trans hfocus)
      exact absurd houtcome (unfailed f)
  | failed y l' g q receiver' memo reply focus remembers updates held waiting =>
      obtain ⟨-, -, hanswer, hasker⟩ := Focus.reply.inj (hreply.symm.trans reply)
      obtain rfl : f = g := by simpa using hanswer
      obtain ⟨rfl, -⟩ := Asker.pass.inj hasker
      refine ⟨hends, ?_, ?_, fun hcaches => ?_⟩
      · rw [← World.account_value, ← World.account_value]
        exact updates.field Account.value (fun _ => rfl) _ _
      · rw [updates.holder fun _ => rfl, if_pos ⟨rfl, rfl⟩]
      · rw [← World.account_failure, updates.accounts, if_pos ⟨rfl, rfl⟩]
        refine (remembers _).2 ?_
        cases hmemo : m.world.remembered p.cache p.key with
        | none => exact Or.inr ⟨hcaches, rfl, rfl⟩
        | some g => exact Or.inl rfl

/-- No failure of a cache is remembered after they were cleared. -/
theorem of_clears (hc : m.Clears c) (h : m.step body = some m') (k : K) :
    m'.world.remembered c k = none := by
  obtain ⟨next, hfocus⟩ := hc
  simp only [Machine.step, hfocus, Machine.stepRun, bind, Option.bind_eq_some_iff] at h
  obtain ⟨⟨answer, w⟩, hanswer, h⟩ := h
  obtain rfl := Option.some.inj h
  obtain ⟨-, haccounts⟩ := World.answer_clearFailures hanswer
  have haccount := haccounts c k
  rw [if_pos rfl] at haccount
  have hfailure := congrArg Account.failure haccount
  simpa [Machine.move] using hfailure

end Posting

/-! ### Published keys with a remembered failure -/

section Runs

variable [DecidableEq N] [BEq V] [ToString K] {body : B → ContextId → K → Body K N V σ B}

/-- A key has both a published value and a remembered failure if and only if some pass has failed
for the key when it was published already, and the failures of the cache have not been cleared
since. -/
theorem memo_overlaps_iff (e : Interleaving body) {i : Nat} (hi : i ≤ e.length) (c : CacheId)
    (k : K) :
    ((∃ v, (e.state i).world.stored c k = some v) ∧
        ∃ f, (e.state i).world.remembered c k = some f) ↔
      ∃ j < i, (e.state j).FailsLate c k ∧ ∀ l, j < l → l < i → ¬ (e.state l).Clears c := by
  constructor
  · induction i with
    | zero =>
        rintro ⟨⟨v, hv⟩, -⟩
        obtain ⟨client, hstart⟩ := e.starts
        simp [hstart, World.stored, World.cache?] at hv
    | succ i ih =>
        rintro ⟨⟨v, hv⟩, f, hf⟩
        obtain ⟨m', hstep, hworld⟩ := e.goes i hi
        rw [hworld] at hv hf
        have hposting := Posting.of_step hstep
        rw [hposting.stored_of_remembered hf] at hv
        rcases hposting.remembered_source hf with hold | ⟨hfails, hcaches, -⟩
        · obtain ⟨j, hj, hlate, hkept⟩ := ih (Nat.le_of_succ_le hi) ⟨⟨v, hv⟩, f, hold⟩
          refine ⟨j, Nat.lt_succ_of_lt hj, hlate, fun l hjl hli hclears => ?_⟩
          rcases Nat.lt_succ_iff_lt_or_eq.1 hli with hli | rfl
          · exact hkept l hjl hli hclears
          · simp [Posting.of_clears hclears hstep k] at hf
        · exact ⟨i, Nat.lt_succ_self i, ⟨hcaches, ⟨v, hv⟩, f, hfails⟩, fun l hil hli _ => by omega⟩
  · rintro ⟨j, hj, ⟨hcaches, ⟨v, hv⟩, f, hfails⟩, hkept⟩
    refine e.lasts (P := fun m => (∃ v, m.world.stored c k = some v) ∧
      ∃ f, m.world.remembered c k = some f) (Nat.succ_le_of_lt hj) ?_ ?_
    · obtain ⟨m', hstep, hworld⟩ := e.goes j (Nat.lt_of_lt_of_le hj hi)
      obtain ⟨-, hstored, -, hremembers⟩ := Posting.of_fails hfails hstep
      rw [hworld]
      exact ⟨⟨v, hstored.trans hv⟩, _, hremembers hcaches⟩
    · rintro l hjl hli ⟨⟨v, hv⟩, f, hf⟩
      obtain ⟨m', hstep, hworld⟩ := e.goes l (Nat.lt_of_lt_of_le hli hi)
      rw [hworld]
      refine ⟨⟨v, (Transition.of_step hstep).obeys.grows.stored c k v hv⟩, f, ?_⟩
      rcases (Posting.of_step hstep).remembered_lasts hf with hsame | ⟨hnone, -⟩ | hclears
      · exact hsame
      · simp [hnone] at hv
      · exact absurd hclears (hkept l hjl hli)

end Runs

/-! ### A builder that fails after it has published its own key -/

namespace FailsAfterPublishing

/-- What every builder reports. -/
def failure : Failure := ⟨.counted 1, "late"⟩

/-- The builder of a key publishes a value for it, and fails. -/
def body (_ : Unit) (_ : ContextId) (k : Nat) : Body Nat Unit Nat Unit Unit :=
  .perform (.insert ⟨0⟩ k 7) fun _ => .done (.error (.failure failure))

/-- Failures are remembered. -/
def config : Config Nat Nat Unit Unit where
  makeBuilder := some fun client => ((), client)
  cachesFailures := true

/-- A key is requested. -/
def main : Machine Nat Unit Nat Unit Unit :=
  .start { client := () } (.perform (.newCache config) fun c => .get c 1 .done)

theorem main_runs : ∀ i < 8, ((main.run body i).step body).isSome = true := by
  decide +kernel

/-- The run of the request. -/
def session : Interleaving body :=
  main.runExecution 8 ⟨(), rfl⟩ (fun _ m' h => ⟨m', h, rfl⟩) main_runs

/-- The key has a value and a remembered failure at the end. -/
theorem memo_overlaps :
    ¬ ∀ i ≤ session.length, ∀ c k, (session.state i).world.stored c k = none ∨
      (session.state i).world.remembered c k = none := by
  intro h
  rcases h 8 (by decide) ⟨0⟩ 1 with hnone | hnone
  · revert hnone; decide +kernel
  · revert hnone; decide +kernel

/-- A pass that fails for its published key leaves the failure beside the value. -/
theorem failure_remembered :
    8 ≤ session.length ∧ (session.state 6).FailsLate ⟨0⟩ 1 ∧
      (∃ v, (session.state 8).world.stored ⟨0⟩ 1 = some v) ∧
      ∃ f, (session.state 8).world.remembered ⟨0⟩ 1 = some f := by
  have hend : 8 ≤ session.length := by decide
  have hlate : (session.state 6).FailsLate ⟨0⟩ 1 :=
    ⟨⟨_, rfl, rfl⟩, ⟨7, rfl⟩, failure, _, _, _, _, rfl, rfl, rfl⟩
  refine ⟨hend, hlate, (memo_overlaps_iff session hend ⟨0⟩ 1).2 ⟨6, by decide, hlate, ?_⟩⟩
  rintro l hl hl' ⟨next, hfocus⟩
  obtain rfl : l = 7 := by omega
  have hdeliver : ∃ r receiver, (session.state 7).focus = .deliver ⟨0⟩ 1 r receiver :=
    ⟨_, _, rfl⟩
  obtain ⟨r, receiver, hdeliver⟩ := hdeliver
  simp [hdeliver] at hfocus

end FailsAfterPublishing

end DerivationCache
