import DerivationCache.Proofs.WithinPass

/-!
# Shapes of builders

What a builder does is a routine like any other. The builders that are looked at most touch
nothing but the context they were called for: besides requesting keys there they only make
requests that concern nobody else (`Request.Private`).

* `Routine.Ends`: the routine returns this result, without requesting a key.
* `Routine.InOrder`: the routine requests these keys in this order and returns a value. It may be
  required to relay errors.

## Main results

* `World.InPass.step_private`: a private request leaves the pass as it is.
* `World.InPass.ends`: a builder that ends with an error answers the request it was called for.
-/

namespace DerivationCache

variable {K N V σ B : Type}

/-- A request that concerns nobody but the routine that makes it. -/
inductive Request.Private : Request K N V σ B → Prop
  | observe : Private .observe
  | setClient (client : σ) : Private (.setClient client)
  | newCell : Private .newCell

namespace Routine

/-- The routine returns this result, after private requests only. -/
inductive Ends (result : Except RequestError V) : Body K N V σ B → Prop
  | done : Ends result (.done result)
  | perform {request : Request K N V σ B} {next : request.Answer → Body K N V σ B}
      (apart : request.Private) (after : ∀ a, Ends result (next a)) :
      Ends result (.perform request next)

/-- The routine requests these keys of a context, in this order, and then returns a value. Where
`relays` holds, it returns every error that it is answered with. -/
inductive InOrder (x : ContextId) (relays : Prop) : List K → Body K N V σ B → Prop
  | done (v : V) : InOrder x relays [] (.done (.ok v))
  | perform {keys : List K} {request : Request K N V σ B}
      {next : request.Answer → Body K N V σ B} (apart : request.Private)
      (after : ∀ a, InOrder x relays keys (next a)) : InOrder x relays keys (.perform request next)
  | build {k : K} {keys : List K} {next : Except RequestError (Option V) → Body K N V σ B}
      (answered : ∀ v, InOrder x relays keys (next (.ok (some v))))
      (failed : relays → ∀ e, Ends (.error e) (next (.error e))) :
      InOrder x relays (k :: keys) (.build x k next)

/-- Where less has to be relayed, the routine does enough. -/
theorem InOrder.mono {x : ContextId} {relays relays' : Prop} (himp : relays' → relays)
    {keys : List K} {b : Body K N V σ B} (h : InOrder x relays keys b) :
    InOrder x relays' keys b := by
  induction h with
  | done v => exact .done v
  | perform apart _ ih => exact .perform apart ih
  | build _ failed ih => exact .build ih fun hrelays => failed (himp hrelays)

end Routine

variable [DecidableEq K] [DecidableEq N] [BEq V] [ToString K]

/-- A private request is answered, and leaves caches and contexts as they are. -/
theorem World.answer_private {request : Request K N V σ B} (h : request.Private)
    (w : World K N V σ B) :
    ∃ a w', w.answer request = some (a, w') ∧ w'.caches = w.caches ∧
      w'.contexts = w.contexts := by
  cases h with
  | observe => exact ⟨w, w, rfl, rfl, rfl⟩
  | setClient client => exact ⟨(), { w with client }, rfl, rfl, rfl⟩
  | newCell => exact ⟨w.cells.alloc.1, { w with cells := w.cells.alloc.2 }, rfl, rfl, rfl⟩

/-- A private request is one step. -/
theorem Machine.step_private (body : B → ContextId → K → Body K N V σ B)
    {request : Request K N V σ B} (h : request.Private)
    (next : request.Answer → Body K N V σ B) (w : World K N V σ B)
    (stack : List (Frame K N V σ B)) :
    ∃ a w', (⟨w, .run (.perform request next), stack⟩ : Machine K N V σ B).step body =
        some ⟨w', .run (next a), stack⟩ ∧
      w'.caches = w.caches ∧ w'.contexts = w.contexts := by
  obtain ⟨a, w', hanswer, hcaches, hcontexts⟩ := w.answer_private h
  exact ⟨a, w', by simp [step, stepRun, hanswer, move], hcaches, hcontexts⟩

namespace World.InPass

variable {w : World K N V σ B} {s : PassSetting K V σ B} {entries : Table K (Entry V)}
  (body : B → ContextId → K → Body K N V σ B)

omit [DecidableEq K] [DecidableEq N] [BEq V] [ToString K] in
/-- Whether a pass goes on depends on the caches and contexts alone. -/
theorem congr {w' : World K N V σ B} (h : w.InPass s entries) (hcaches : w'.caches = w.caches)
    (hcontexts : w'.contexts = w.contexts) : w'.InPass s entries := by
  refine ⟨?_, (ledger_congr hcaches).trans h.ledger⟩
  rw [← h.context, context?, context?, hcontexts]

/-- A private request leaves the pass as it is. -/
theorem step_private (h : w.InPass s entries) {request : Request K N V σ B}
    (apart : request.Private) (next : request.Answer → Body K N V σ B)
    (stack : List (Frame K N V σ B)) :
    ∃ a w', (⟨w, .run (.perform request next), stack⟩ : Machine K N V σ B).step body =
        some ⟨w', .run (next a), stack⟩ ∧ w'.InPass s entries := by
  obtain ⟨a, w', hstep, hcaches, hcontexts⟩ := Machine.step_private body apart next w stack
  exact ⟨a, w', hstep, h.congr hcaches hcontexts⟩

/-- A builder that ends with an error answers with it the request that it was called for. -/
theorem ends (h : w.InPass s entries) {e : RequestError} {b : Body K N V σ B}
    (hends : Routine.Ends (.error e) b) (k : K) (thread : ThreadId) (asker : Asker K N V σ B)
    (stack : List (Frame K N V σ B)) :
    ∃ ms w', Machine.Path body ⟨w, .run b, ⟨s.context, k, thread, asker⟩ :: stack⟩ ms
        ⟨w', .reply s.context k (.error e) asker, stack⟩ ∧
      w'.InPass s entries ∧ ∀ m ∈ ms, m.focus.Inside ∧ m.Silent := by
  induction hends generalizing w with
  | done =>
      refine ⟨_, w, .one rfl, h, fun m hm => ?_⟩
      obtain rfl := List.mem_singleton.1 hm
      exact ⟨trivial, Machine.silent_of_focus (by simp)⟩
  | @perform request next apart _ ih =>
      obtain ⟨a, w₁, hstep, h₁⟩ :=
        h.step_private body apart next (⟨s.context, k, thread, asker⟩ :: stack)
      obtain ⟨ms, w', hpath, h', hms⟩ := ih a h₁
      refine ⟨_, w', .step hstep hpath, h', fun m hm => ?_⟩
      rcases List.mem_cons.1 hm with rfl | hm
      · exact ⟨trivial, Machine.silent_of_focus (by simp)⟩
      · exact hms m hm

end World.InPass

end DerivationCache
