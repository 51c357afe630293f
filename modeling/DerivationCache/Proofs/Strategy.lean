import DerivationCache.Proofs.BuilderShape
import Mathlib.Logic.Relation
import Mathlib.Order.WellFounded

/-!
# Strategies

A `Strategy` says how the value of one key is computed from the values of others: which key is
looked at next may depend on the values seen so far, and the computation ends with a value or with a
failure. A `Plan` has a strategy for every key that only looks at smaller keys, in a well-founded
order. `evaluate` is the plain recursion that a plan stands for, in which nothing is remembered and
a key is computed anew every time it is looked at.

A builder follows a strategy (`Routine.Follows`) if it requests what the strategy looks at, relays
errors, and returns what the strategy ends with. What a pass with such builders answers is what the
evaluation gives: a key is never requested while it is being derived, since it would be smaller than
itself.

## Main results

* `Strategy.follows_routine`: every strategy is followed by some builder.
* `Recorded.ask_evaluates`: a request within a pass is answered with what the evaluation gives, and
  no placeholder is asked for.
-/

namespace DerivationCache

open Relation

variable {K N V σ B : Type}

/-! ### Plain recursion -/

/-- How a value is computed from the values of keys that are below. -/
inductive Strategy (below : K → Prop) (V : Type) : Type where
  | value (v : V)
  | failure (message : String)
  /-- Looks at the value of a key, and goes on with it. -/
  | request (key : K) (smaller : below key) (next : V → Strategy below V)

/-- What the strategy ends with, where the keys have these results. A failure of a key that is
looked at is a failure of the whole. -/
def Strategy.eval {below : K → Prop} (results : (d : K) → below d → Except String V) :
    Strategy below V → Except String V
  | .value v => .ok v
  | .failure message => .error message
  | .request d smaller next =>
    match results d smaller with
    | .ok v => (next v).eval results
    | .error message => .error message

/-- A strategy for every key that looks at smaller keys only. -/
abbrev Plan (K V : Type) [WellFoundedRelation K] : Type :=
  (k : K) → Strategy (fun d => WellFoundedRelation.rel d k) V

variable [WellFoundedRelation K]

/-- The plain recursion that a plan stands for. -/
def evaluate (plan : Plan K V) (k : K) : Except String V :=
  (plan k).eval fun d _ => evaluate plan d
termination_by k

/-- No key is reached from itself by going down. -/
theorem not_transGen_rel_self (k : K) : ¬ TransGen WellFoundedRelation.rel k k :=
  WellFoundedRelation.wf.transGen.irrefl.irrefl k

/-! ### Builders that follow a strategy -/

/-- The routine requests, of this context, the keys that the strategy looks at. It relays errors and
returns what the strategy ends with. -/
inductive Routine.Follows (x : ContextId) {below : K → Prop} :
    Strategy below V → Body K N V σ B → Prop
  | value (v : V) : Follows x (.value v) (.done (.ok v))
  | failure (f : Failure) : Follows x (.failure f.message) (.done (.error (.failure f)))
  | perform {strategy : Strategy below V} {request : Request K N V σ B}
      {next : request.Answer → Body K N V σ B} (apart : request.Private)
      (after : ∀ a, Follows x strategy (next a)) : Follows x strategy (.perform request next)
  | request {d : K} {smaller : below d} {strategy : V → Strategy below V}
      {next : Except RequestError (Option V) → Body K N V σ B}
      (answered : ∀ v, Follows x (strategy v) (next (.ok (some v))))
      (failed : ∀ e, Routine.Ends (.error e) (next (.error e))) :
      Follows x (.request d smaller strategy) (.build x d next)

/-- The builder that does what the strategy says and nothing else. -/
def Strategy.routine (x : ContextId) {below : K → Prop} : Strategy below V → Body K N V σ B
  | .value v => .done (.ok v)
  | .failure message => .done (.error (.failure ⟨.uncounted 0, message⟩))
  | .request d _ next => .build x d fun
    | .ok (some v) => (next v).routine x
    | .ok none => .halt
    | .error e => .done (.error e)

omit [WellFoundedRelation K] in
/-- Every strategy can be followed. -/
theorem Strategy.follows_routine (x : ContextId) {below : K → Prop} (strategy : Strategy below V) :
    Routine.Follows x strategy (strategy.routine x : Body K N V σ B) := by
  induction strategy with
  | value v => exact .value v
  | failure message => exact .failure ⟨.uncounted 0, message⟩
  | request d smaller next ih =>
      rw [Strategy.routine]
      exact .request ih fun _ => .done

/-! ### Passes that follow a plan -/

/-- A pass whose builders follow a plan, in a cache without a scope all of whose published values
are those of the plan. -/
structure PassSetting.Planned [DecidableEq K] (s : PassSetting K V σ B) (plan : Plan K V)
    (body : B → ContextId → K → Body K N V σ B) : Prop where
  follows : ∀ b k, Routine.Follows s.context (plan k) (body b s.context k)
  unscoped : s.cache.config.scope = none
  stored : ∀ k v, s.cache.store.get? k = some v → evaluate plan k = .ok v

variable [DecidableEq K]

/-- A moment of such a pass: what is recorded are values of the plan, of keys that had none. -/
structure Recorded (s : PassSetting K V σ B) (plan : Plan K V) (w : World K N V σ B)
    (entries : Table K (Entry V)) : Prop where
  inPass : w.InPass s entries
  values : ∀ k v, entries.get? k = some (.resolved v) → evaluate plan k = .ok v
  fresh : ∀ k e, entries.get? k = some e → s.cache.store.get? k = none

/-- How a request within the pass ends, where the plan gives this result and these keys are in
flight afterwards. -/
inductive Settles (s : PassSetting K V σ B) (plan : Plan K V) (flight : K → Prop)
    (result : Except String V) (w' : World K N V σ B) :
    Except RequestError (Option V) → Prop
  | value {entries : Table K (Entry V)} (v : V) (evaluates : result = .ok v)
      (recorded : Recorded s plan w' entries)
      (inFlight : ∀ k, (s.contextWith entries).InFlight k ↔ flight k) :
      Settles s plan flight result w' (.ok (some v))
  | failure {entries : Table K (Entry V)} (f : Failure) (evaluates : result = .error f.message)
      (inPass : w'.InPass s entries) : Settles s plan flight result w' (.error (.failure f))

namespace Recorded

variable {s : PassSetting K V σ B} {plan : Plan K V} {w : World K N V σ B}
  {entries : Table K (Entry V)} {k : K}

/-- At the beginning nothing is recorded. -/
theorem start (plan : Plan K V) (h : w.InPass s .empty) : Recorded s plan w .empty :=
  ⟨h, fun k v hk => by simp at hk, fun k e hk => by simp at hk⟩

/-- What the context would publish are values of the plan. -/
theorem context_values (h : Recorded s plan w entries) (k : K) (v : V)
    (hv : (s.contextWith entries).get? k = some v) : evaluate plan k = .ok v :=
  h.values k v (Context.get?_eq_some_iff.1 hv)

/-- One more entry is written, with a true value if it has one. -/
theorem insert {w' : World K N V σ B} (h : Recorded s plan w entries) {e : Entry V}
    (hpass : w'.InPass s (entries.insert k e)) (hstore : s.cache.store.get? k = none)
    (he : ∀ v, e = .resolved v → evaluate plan k = .ok v) :
    Recorded s plan w' (entries.insert k e) := by
  refine ⟨hpass, fun l v hl => ?_, fun l e' hl => ?_⟩
  · by_cases hkl : k = l
    · subst hkl
      exact he v (by simpa using hl)
    · exact h.values l v (by simpa [hkl] using hl)
  · by_cases hkl : k = l
    · rwa [← hkl]
    · exact h.fresh l e' (by simpa [hkl] using hl)

end Recorded

/-! ### Requests within such a pass -/

variable [DecidableEq N] [BEq V] [ToString K] {body : B → ContextId → K → Body K N V σ B}
  {s : PassSetting K V σ B} {plan : Plan K V}

/-- A request for this key is answered with what the plan gives, if all that is in flight is above
the key, and no placeholder is asked for. -/
def AnswersWithPlan (body : B → ContextId → K → Body K N V σ B) (s : PassSetting K V σ B)
    (plan : Plan K V) (k : K) : Prop :=
  ∀ (w : World K N V σ B) (entries : Table K (Entry V)) (stack : List (Frame K N V σ B))
    (asker : Asker K N V σ B), Recorded s plan w entries →
    (∀ j, (s.contextWith entries).InFlight j → TransGen WellFoundedRelation.rel k j) →
    ∃ ms w' answer, Machine.Path body ⟨w, .ask s.context k asker, stack⟩ ms
        ⟨w', .reply s.context k answer asker, stack⟩ ∧
      Settles s plan (s.contextWith entries).InFlight (evaluate plan k) w' answer ∧
      Machine.issues ms = []

/-- A builder that has come to a point of its strategy returns what the plan gives for its key, if
requests for smaller keys are answered so. -/
theorem Recorded.run_strategy {k : K}
    (hsmaller : ∀ d, WellFoundedRelation.rel d k → AnswersWithPlan body s plan d)
    (hown : s.cache.owns k = true) (hstore : s.cache.store.get? k = none)
    (thread : ThreadId) (asker : Asker K N V σ B) (stack : List (Frame K N V σ B))
    {strategy : Strategy (fun d => WellFoundedRelation.rel d k) V} {b : Body K N V σ B}
    (hb : Routine.Follows s.context strategy b)
    (hresult : strategy.eval (fun d _ => evaluate plan d) = evaluate plan k)
    {w : World K N V σ B} {entries : Table K (Entry V)} (h : Recorded s plan w entries)
    (habove : ∀ j, (s.contextWith entries).InFlight j →
      j = k ∨ TransGen WellFoundedRelation.rel k j) :
    ∃ ms w' answer, Machine.Path body ⟨w, .run b, ⟨s.context, k, thread, asker⟩ :: stack⟩ ms
        ⟨w', .reply s.context k answer asker, stack⟩ ∧
      Settles s plan (fun j => k ≠ j ∧ (s.contextWith entries).InFlight j) (evaluate plan k) w'
        answer ∧
      Machine.issues ms = [] := by
  induction hb generalizing w entries with
  | value v =>
      obtain ⟨w', hstep, hpass⟩ := h.inPass.return_value body hown v thread asker stack
      have hrecorded : Recorded s plan w' (entries.insert k (.resolved v)) := by
        refine h.insert hpass hstore fun u hu => ?_
        rw [← hresult, ← Entry.resolved.inj hu]
        rfl
      refine ⟨_, w', _, .one hstep, .value v hresult.symm hrecorded fun j => ?_, by simp⟩
      simp [PassSetting.inFlight_insert, Entry.value?]
  | failure f =>
      have hstep :=
        Machine.step_return_error body w (.failure f) ⟨s.context, k, thread, asker⟩ stack
      exact ⟨_, w, _, .one hstep, .failure f hresult.symm h.inPass, by simp⟩
  | @perform strategy request next apart _ ih =>
      obtain ⟨a, w₁, hstep, h₁⟩ :=
        h.inPass.step_private body apart next (⟨s.context, k, thread, asker⟩ :: stack)
      obtain ⟨ms, w', answer, hpath, hsettles, hms⟩ :=
        ih a hresult ⟨h₁, h.values, h.fresh⟩ habove
      exact ⟨_, w', answer, .step hstep hpath, hsettles, by simp [hms]⟩
  | @request d smaller strategy next _ failed ih =>
      have hdown : ∀ j, (s.contextWith entries).InFlight j →
          TransGen WellFoundedRelation.rel d j := by
        intro j hj
        rcases habove j hj with rfl | hbelow
        · exact .single smaller
        · exact .head smaller hbelow
      obtain ⟨ms₁, w₁, answer₁, hpath₁, hsettles₁, hms₁⟩ := hsmaller d smaller w entries
        (⟨s.context, k, thread, asker⟩ :: stack) (.routine next) h hdown
      -- the request, how it ends, and its answer handed to the builder
      have hpath := (Machine.Path.step (Machine.step_build body ..) hpath₁).trans
        (.one (Machine.step_reply_routine body ..))
      rw [Strategy.eval] at hresult
      cases hsettles₁ with
      | @value entries₁ v evaluates recorded inFlight =>
          have hsame : (s.contextWith entries₁).InFlight = (s.contextWith entries).InFlight :=
            funext fun j => propext (inFlight j)
          rw [evaluates] at hresult
          obtain ⟨ms₂, w', answer, hpath₂, hsettles₂, hms₂⟩ :=
            ih v hresult recorded (hsame ▸ habove)
          rw [hsame] at hsettles₂
          exact ⟨_, w', answer, hpath.trans hpath₂, hsettles₂,
            by simp [hms₁, hms₂]⟩
      | failure f evaluates inPass =>
          rw [evaluates] at hresult
          obtain ⟨ms₂, w', hpath₂, hpass, hms₂⟩ :=
            inPass.ends body (failed (.failure f)) k thread asker stack
          have hsilent := Machine.issues_eq_nil fun m hm => (hms₂ m hm).2
          exact ⟨_, w', _, hpath.trans hpath₂, .failure f hresult.symm hpass,
            by simp [hms₁, hsilent]⟩

/-- A request within a pass whose builders follow a plan is answered with what the plan gives, and
no placeholder is asked for. -/
theorem Recorded.ask_evaluates (hs : s.Planned plan body) (k : K) :
    AnswersWithPlan (N := N) body s plan k := by
  induction k using (WellFoundedRelation.wf (α := K)).induction with
  | h k hsmaller =>
      intro w entries stack asker h habove
      have hown : s.cache.owns k = true := by
        rw [Cache.owns, hs.unscoped]
      -- Keys in flight lie above the requested one, which does not lie above itself.
      have hnotFlight : ¬ (s.contextWith entries).InFlight k :=
        fun hk => not_transGen_rel_self k (habove k hk)
      have hknown {v : V} (hv : s.known? entries k = some v) (hvalue : evaluate plan k = .ok v) :
          ∃ ms w' answer, Machine.Path body ⟨w, .ask s.context k asker, stack⟩ ms
              ⟨w', .reply s.context k answer asker, stack⟩ ∧
            Settles s plan (s.contextWith entries).InFlight (evaluate plan k) w' answer ∧
            Machine.issues ms = [] := by
        obtain ⟨hstep, -, hissued⟩ := h.inPass.ask_known body hown hv asker stack
        exact ⟨_, w, _, .one hstep, .value v hvalue h fun _ => Iff.rfl, by simp [hissued]⟩
      cases hstore : s.cache.store.get? k with
      | some v =>
          exact hknown (by simp [PassSetting.known?, hstore]) (hs.stored k v hstore)
      | none =>
          cases hk : entries.get? k with
          | none =>
              obtain ⟨thread, w₁, hstep, hpass, -, hissued⟩ :=
                h.inPass.ask_unseen body hown hstore hk asker stack
              have hrecorded : Recorded s plan w₁ (entries.insert k .pending) :=
                h.insert hpass hstore fun v hv => by simp at hv
              have hflight (j : K) : (s.contextWith (entries.insert k .pending)).InFlight j ↔
                  j = k ∨ (s.contextWith entries).InFlight j := by
                rw [PassSetting.inFlight_insert]
                by_cases hkj : k = j
                · simp [hkj, Entry.value?]
                · simp [hkj, Ne.symm hkj]
              have hsame : (fun j => k ≠ j ∧
                  (s.contextWith (entries.insert k .pending)).InFlight j) =
                    (s.contextWith entries).InFlight := by
                funext j
                rw [hflight]
                refine propext ⟨fun hj => hj.2.resolve_left (Ne.symm hj.1), fun hj => ⟨?_, .inr hj⟩⟩
                rintro rfl
                exact hnotFlight hj
              obtain ⟨ms, w', answer, hpath, hsettles, hms⟩ :=
                hrecorded.run_strategy hsmaller hown hstore thread asker stack
                  (hs.follows s.builder k) (by rw [evaluate])
                  fun j hj => ((hflight j).1 hj).imp_right (habove j)
              exact ⟨_, w', answer, .step hstep hpath, hsame ▸ hsettles, by simp [hissued, hms]⟩
          | some e =>
              cases e with
              | pending => exact absurd ⟨_, hk, rfl⟩ hnotFlight
              | placeholderIssued p => exact absurd ⟨_, hk, rfl⟩ hnotFlight
              | resolved v =>
                  exact hknown (by simp [PassSetting.known?, hstore, hk]) (h.values k v hk)

end DerivationCache
