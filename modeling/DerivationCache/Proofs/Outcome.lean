import DerivationCache.Proofs.Transition

/-!
# Outcomes on their way

A request for a derived value may run many passes of its own and of others before its outcome
reaches the routine that made it. This module follows the values on their way: where in a
machine they are (`Machine.Carries`), and where they come from (`Transition.carries`). It also
says how a pass is wired to the request that it serves (`Machine.Wired`): it was asked for the
key of the request, in a context that commits into the cache of the request.

## Main results

* `Transition.wired`: passes stay wired to their requests.
* `Transition.carries`: a value that is on its way was on its way before, or is published, or is
  what a pass was answered with that has been committed now.
-/

namespace DerivationCache

variable {K N V σ B : Type}

/-! ### Passes and their requests -/

section Wiring

/-- A pass asks for the key of its request, in a context that commits into the cache of its
request. -/
def Asker.Wired (w : World K N V σ B) (x : ContextId) (k : K) : Asker K N V σ B → Prop
  | .routine _ => True
  | .pass p _ => k = p.key ∧ w.parent? x = some p.cache

/-- The request that is made or answered within a pass now is wired. -/
def Focus.Wired (w : World K N V σ B) : Focus K N V σ B → Prop
  | .ask x k asker => asker.Wired w x k
  | .reply x k _ asker => asker.Wired w x k
  | _ => True

/-- Every pass that is running is wired to its request. -/
structure Machine.Wired (m : Machine K N V σ B) : Prop where
  focus : m.focus.Wired m.world
  stack : ∀ frame ∈ m.stack, frame.asker.Wired m.world frame.context frame.key

variable [DecidableEq K]

/-- A routine that is wired stays so while the world grows. -/
theorem Asker.Wired.grows {w w' : World K N V σ B} {x : ContextId} {k : K}
    {asker : Asker K N V σ B} (h : asker.Wired w x k) (hgrows : w.Grows w') :
    asker.Wired w' x k := by
  cases asker with
  | routine next => exact trivial
  | pass p receiver => exact ⟨h.1, hgrows.parent h.2⟩

/-- So does a focus. -/
theorem Focus.Wired.grows {w w' : World K N V σ B} {focus : Focus K N V σ B}
    (h : focus.Wired w) (hgrows : w.Grows w') : focus.Wired w' := by
  cases focus with
  | ask x k asker => exact Asker.Wired.grows h hgrows
  | reply x k answer asker => exact Asker.Wired.grows h hgrows
  | _ => exact trivial

/-- So does a machine in a world that has grown. -/
theorem Machine.Wired.grows {m : Machine K N V σ B} {w : World K N V σ B} (h : m.Wired)
    (hgrows : m.world.Grows w) : ({ m with world := w } : Machine K N V σ B).Wired :=
  ⟨h.focus.grows hgrows, fun frame hframe => (h.stack frame hframe).grows hgrows⟩

/-- What is reached for a derived value is no request within a pass. -/
theorem Reached.wired {w w' : World K N V σ B} {c : CacheId} {k : K}
    {receiver : Receiver K N V σ B} {focus : Focus K N V σ B} (h : Reached w c k receiver focus) :
    focus.Wired w' := by
  cases h <;> exact trivial

variable [DecidableEq N] [BEq V] [ToString K] {body : B → ContextId → K → Body K N V σ B}

/-- Passes stay wired to their requests. -/
theorem Transition.wired {m m' : Machine K N V σ B} (h : Transition body m m') (hm : m.Wired) :
    m'.Wired := by
  have hgrows := h.obeys.grows
  have hstack {rest : List (Frame K N V σ B)} (hsub : ∀ frame ∈ rest, frame ∈ m.stack) :
      ∀ frame ∈ rest, frame.asker.Wired m'.world frame.context frame.key :=
    fun frame hframe => (hm.stack frame (hsub frame hframe)).grows hgrows
  have hfocus := hm.focus
  cases h with
  | returnError e =>
      exact ⟨hm.stack _ (List.mem_cons_self ..), hstack fun _ h => List.mem_cons_of_mem _ h⟩
  | returnRefused e =>
      exact ⟨hm.stack _ (List.mem_cons_self ..), hstack fun _ h => List.mem_cons_of_mem _ h⟩
  | returnRecorded recorded =>
      exact ⟨(hm.stack _ (List.mem_cons_self ..)).grows hgrows,
        hstack fun _ h => List.mem_cons_of_mem _ h⟩
  | unwindRoutine message => exact ⟨trivial, hstack fun _ h => List.mem_cons_of_mem _ h⟩
  | unwindPass message idles => exact ⟨trivial, hstack fun _ h => List.mem_cons_of_mem _ h⟩
  | build => exact ⟨trivial, hstack fun _ h => h⟩
  | get idles reached => exact ⟨reached.wired, hstack fun _ h => h⟩
  | wakeNext idles reached => exact ⟨reached.wired, hstack fun _ h => h⟩
  | askAnswered answered => exact ⟨Asker.Wired.grows hfocus hgrows, hstack fun _ h => h⟩
  | askBuild b missed =>
      refine ⟨trivial, fun frame hframe => ?_⟩
      rcases List.mem_cons.1 hframe with rfl | hframe
      · exact Asker.Wired.grows hfocus hgrows
      · exact hstack (fun _ h => h) frame hframe
  | attempt left idles created =>
      refine ⟨⟨rfl, ?_⟩, hstack fun _ h => h⟩
      obtain ⟨-, context, -, -, hx, -, hparent, -⟩ := World.createContext_inv created
      rw [World.parent?_of_context? hx, hparent]
  | _ => exact ⟨trivial, hstack fun _ h => h⟩

end Wiring

/-! ### Values on their way -/

section Carrying

/-- The value is among the outcomes that a crowd of threads has so far. -/
def Receiver.Carries (v : V) : Receiver K N V σ B → Prop
  | .caller _ => False
  | .crowd _ outcomes _ => .returned (.ok v) ∈ outcomes

/-- The value is on its way to those who wait for a pass. -/
def Asker.Carries (c : CacheId) (k : K) (v : V) : Asker K N V σ B → Prop
  | .routine _ => False
  | .pass p receiver => p.cache = c ∧ p.key = k ∧ receiver.Carries v

/-- The value is on its way in what the machine is about to do. -/
def Focus.Carries (c : CacheId) (k : K) (v : V) : Focus K N V σ B → Prop
  | .run _ => False
  | .ask _ _ asker => asker.Carries c k v
  | .reply _ _ _ asker => asker.Carries c k v
  | .attempt p receiver => p.cache = c ∧ p.key = k ∧ receiver.Carries v
  | .deliver d l outcome receiver =>
    d = c ∧ l = k ∧ (outcome = .returned (.ok v) ∨ receiver.Carries v)
  | .wake d l _ outcomes _ => d = c ∧ l = k ∧ .returned (.ok v) ∈ outcomes

/-- A request for the key has ended with the value, on some thread, and the value is on its way
to the routine that made the request. -/
def Machine.Carries (m : Machine K N V σ B) (c : CacheId) (k : K) (v : V) : Prop :=
  m.focus.Carries c k v ∨ ∃ frame ∈ m.stack, frame.asker.Carries c k v

variable [DecidableEq K]

/-- What is reached for a derived value carries what is published, and what was carried. -/
theorem Reached.carries {w : World K N V σ B} {c d : CacheId} {k l : K} {v : V}
    {receiver : Receiver K N V σ B} {focus : Focus K N V σ B} (h : Reached w c k receiver focus)
    (hv : focus.Carries d l v) :
    c = d ∧ k = l ∧ (w.stored c k = some v ∨ receiver.Carries v) := by
  cases h with
  | outcome r stored =>
      obtain ⟨rfl, rfl, hv | hv⟩ := hv
      · exact ⟨rfl, rfl, Or.inl (stored v (Outcome.returned.inj hv))⟩
      · exact ⟨rfl, rfl, Or.inr hv⟩
  | claimed thread =>
      obtain ⟨rfl, rfl, hv⟩ := hv
      exact ⟨rfl, rfl, Or.inr hv⟩

variable [DecidableEq N] [BEq V] [ToString K] {body : B → ContextId → K → Body K N V σ B}

/-- A value that is on its way was on its way before, or is published, or is what a pass was
answered with that has been committed now. -/
theorem Transition.carries {m m' : Machine K N V σ B} (h : Transition body m m') {c : CacheId}
    {k : K} {v : V} (hv : m'.Carries c k v) :
    m.Carries c k v ∨ m'.world.stored c k = some v ∨
      ∃ x l p receiver w, m.focus = .reply x l (.ok (some v)) (.pass p receiver) ∧
        p.cache = c ∧ p.key = k ∧ m.world.commit x = some (.ok true, w) ∧ w.Idles m'.world := by
  cases h with
  | returnError e =>
      rcases hv with hv | ⟨frame, hframe, hv⟩
      · exact Or.inl (Or.inr ⟨_, List.mem_cons_self .., hv⟩)
      · exact Or.inl (Or.inr ⟨frame, List.mem_cons_of_mem _ hframe, hv⟩)
  | returnRefused e =>
      rcases hv with hv | ⟨frame, hframe, hv⟩
      · exact Or.inl (Or.inr ⟨_, List.mem_cons_self .., hv⟩)
      · exact Or.inl (Or.inr ⟨frame, List.mem_cons_of_mem _ hframe, hv⟩)
  | returnRecorded recorded =>
      rcases hv with hv | ⟨frame, hframe, hv⟩
      · exact Or.inl (Or.inr ⟨_, List.mem_cons_self .., hv⟩)
      · exact Or.inl (Or.inr ⟨frame, List.mem_cons_of_mem _ hframe, hv⟩)
  | unwindRoutine message =>
      rcases hv with hv | ⟨frame, hframe, hv⟩
      · exact absurd hv id
      · exact Or.inl (Or.inr ⟨frame, List.mem_cons_of_mem _ hframe, hv⟩)
  | unwindPass message idles =>
      rcases hv with ⟨hc, hk, hv | hv⟩ | ⟨frame, hframe, hv⟩
      · simp at hv
      · exact Or.inl (Or.inr ⟨_, List.mem_cons_self .., hc, hk, hv⟩)
      · exact Or.inl (Or.inr ⟨frame, List.mem_cons_of_mem _ hframe, hv⟩)
  | perform r next answered => exact Or.inl hv
  | build => exact Or.inl hv
  | get idles reached =>
      rcases hv with hv | hv
      · obtain ⟨rfl, rfl, hv | hv⟩ := reached.carries hv
        · exact Or.inr (Or.inl (by rw [idles.stored, hv]))
        · exact absurd hv id
      · exact Or.inl (Or.inr hv)
  | race idles stored =>
      rcases hv with ⟨rfl, rfl, hv⟩ | hv
      · exact Or.inr (Or.inl (by rw [idles.stored, stored v hv]))
      · exact Or.inl (Or.inr hv)
  | askAnswered answered => exact Or.inl hv
  | askBuild b missed =>
      rcases hv with hv | ⟨frame, hframe, hv⟩
      · exact absurd hv id
      · rcases List.mem_cons.1 hframe with rfl | hframe
        · exact Or.inl (Or.inl hv)
        · exact Or.inl (Or.inr ⟨frame, hframe, hv⟩)
  | replyRoutine => exact Or.inl hv
  | passFailed e idles =>
      rcases hv with ⟨hc, hk, hv | hv⟩ | hv
      · simp at hv
      · exact Or.inl (Or.inl ⟨hc, hk, hv⟩)
      · exact Or.inl (Or.inr hv)
  | committed commit idles =>
      rcases hv with ⟨hc, hk, hv | hv⟩ | hv
      · obtain rfl : _ = v := Except.ok.inj (Outcome.returned.inj hv)
        -- Nothing else brings up a value that was neither on its way nor published.
        exact Or.inr (Or.inr ⟨_, _, _, _, _, rfl, hc, hk, commit, idles⟩)
      · exact Or.inl (Or.inl ⟨hc, hk, hv⟩)
      · exact Or.inl (Or.inr hv)
  | conflictSettled commit stored idles =>
      rcases hv with ⟨rfl, rfl, hv | hv⟩ | hv
      · obtain rfl : _ = v := Except.ok.inj (Outcome.returned.inj hv)
        exact Or.inr (Or.inl (by rw [idles.stored, stored]))
      · exact Or.inl (Or.inl ⟨rfl, rfl, hv⟩)
      · exact Or.inl (Or.inr hv)
  | conflictRetried commit => exact Or.inl hv
  | exhausted e idles =>
      rcases hv with ⟨hc, hk, hv | hv⟩ | hv
      · simp at hv
      · exact Or.inl (Or.inl ⟨hc, hk, hv⟩)
      · exact Or.inl (Or.inr hv)
  | attempt left idles created => exact Or.inl hv
  | deliverReturned r =>
      rcases hv with hv | hv
      · exact absurd hv id
      · exact Or.inl (Or.inr hv)
  | deliverPanicked message =>
      rcases hv with hv | hv
      · exact absurd hv id
      · exact Or.inl (Or.inr hv)
  | deliverCrowd =>
      rcases hv with ⟨hc, hk, hv⟩ | hv
      · rcases List.mem_append.1 hv with hv | hv
        · exact Or.inl (Or.inl ⟨hc, hk, Or.inr hv⟩)
        · exact Or.inl (Or.inl ⟨hc, hk, Or.inl (List.mem_singleton.1 hv).symm⟩)
      · exact Or.inl (Or.inr hv)
  | wakeDone =>
      rcases hv with hv | hv
      · exact absurd hv id
      · exact Or.inl (Or.inr hv)
  | wakeNext idles reached =>
      rcases hv with hv | hv
      · obtain ⟨rfl, rfl, hv | hv⟩ := reached.carries hv
        · exact Or.inr (Or.inl (by rw [idles.stored, hv]))
        · exact Or.inl (Or.inl ⟨rfl, rfl, hv⟩)
      · exact Or.inl (Or.inr hv)

end Carrying

end DerivationCache
