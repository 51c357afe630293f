import DerivationCache.Proofs.CommittedPass
import DerivationCache.Proofs.Path
import DerivationCache.Proofs.WriteOnce

/-!
# The course of a key through a pass

As long as a context is not cleared, each of its keys goes through the pass once: it is requested,
it may be answered with a stand-in, and it is given a value. This holds whatever the builders do,
their own keys and those of the calls further up included, since no operation takes an entry back.

`World.stage` says how far a key has come. A builder is called on the way out of the first stage,
and a placeholder is asked for on the way out of the second one. Stages never go back, so neither
happens twice.

## Main results

* `World.Obeys.stage_le`: no step takes a key back.
* `World.Obeys.resolved_source`: a recorded value changes only if another one is recorded in its
  place.
* `World.record_inert`: an addition that is refused, or that repeats the recorded value, changes
  nothing.
* `key_goes_through_once`: the course of a key over any run.
-/

namespace DerivationCache

variable {K N V σ B : Type}

/-! ### Stages -/

/-- How far a key has come within a pass. -/
inductive Stage where
  | unseen
  | pending
  | placeholderIssued
  | resolved
  deriving DecidableEq

/-- The place of a stage among the others. -/
def Stage.rank : Stage → Nat
  | unseen => 0
  | pending => 1
  | placeholderIssued => 2
  | resolved => 3

/-- Stages follow one another in the order of their ranks. -/
instance : LE Stage := ⟨fun s t => s.rank ≤ t.rank⟩

theorem Stage.le_iff {s t : Stage} : s ≤ t ↔ s.rank ≤ t.rank := Iff.rfl

theorem Stage.refl (s : Stage) : s ≤ s := Nat.le_refl s.rank

theorem Stage.trans {s t u : Stage} (h : s ≤ t) (h' : t ≤ u) : s ≤ u := Nat.le_trans h h'

/-- There is no stage beyond a value. -/
theorem Stage.le_resolved (s : Stage) : s ≤ resolved := by
  cases s <;> simp [le_iff, rank]

/-- Only a value comes after a value. -/
theorem Stage.eq_resolved_of_le {s : Stage} (h : resolved ≤ s) : s = resolved := by
  cases s <;> simp [le_iff, rank] at h
  rfl

/-- The stage of a key with this entry. -/
def Entry.stage : Option (Entry V) → Stage
  | none => .unseen
  | some .pending => .pending
  | some (.placeholderIssued _) => .placeholderIssued
  | some (.resolved _) => .resolved

/-- A key without an entry has not been seen. -/
@[simp] theorem Entry.stage_eq_unseen {s : Option (Entry V)} :
    Entry.stage s = .unseen ↔ s = none := by
  rcases s with _ | _ | p | v <;> simp [Entry.stage]

namespace World

variable [DecidableEq K]

/-- How far a key has come within the pass of a context. -/
def stage (w : World K N V σ B) (x : ContextId) (k : K) : Stage := Entry.stage (w.keyState x k)

/-- Every key that was seen in an attached context lies in the namespace of its parent. -/
def Admitted (w : World K N V σ B) : Prop :=
  ∀ x c k s, w.parent? x = some c → w.keyState x k = some s → w.Owns c k

/-- In a world without contexts no key was seen. -/
theorem Admitted.empty_world (client : σ) : ({ client } : World K N V σ B).Admitted :=
  fun x c k s hc _ => by simp [World.parent?, context?] at hc

/-- A key that was seen in an attached context is accepted. -/
theorem Admitted.checkKey [ToString K] {w : World K N V σ B} (h : w.Admitted) {x : ContextId}
    {context : Context K V σ B} (hx : w.context? x = some context) {k : K} {s : Entry V}
    (hs : w.keyState x k = some s) : w.checkKey context k = some (.ok ()) := by
  rw [World.checkKey]
  split
  · rfl
  · rename_i c hc
    obtain ⟨cache, hcache, howns⟩ := h x c k s (by rw [parent?_of_context? hx, hc]) hs
    rw [hcache, Option.map_some, Cache.checkKey, if_pos howns]

namespace Obeys

variable {w w' : World K N V σ B} {d : Demand K V} {x : ContextId} {k : K}

/-- No step takes a foreign key into an attached context. -/
theorem admitted (h : w.Obeys w' d) (hw : w.Admitted) : w'.Admitted := by
  intro x c k s hc hs
  obtain ⟨e, hshift, -, howns⟩ := h.shift
  rcases hshift.state_source hs with hold | hwrites
  · exact h.grows.owns (hw x c k s (h.grows.parent_of_keyState hc hold) hold)
  · exact h.grows.owns (howns x k s hwrites c hc)

/-- No step takes a key back, unless it clears the context. -/
theorem stage_le (h : w.Obeys w' d) (hd : d ≠ .clear x) (k : K) : w.stage x k ≤ w'.stage x k := by
  obtain ⟨e, hshift, hpermits, -⟩ := h.shift
  cases hs : w.keyState x k with
  | none =>
      rw [Stage.le_iff, stage, hs]
      exact Nat.zero_le _
  | some s =>
      rcases hshift.state_lasts hs with hsame | ⟨s', hwrites, hs'⟩ | rfl
      · rw [stage, stage, hs, hsame]
        exact Stage.refl _
      · -- A mark needs an unseen key and a placeholder a pending one, so the key moves forward.
        rw [stage, stage, hs, hs']
        cases hshift with
        | mark y l unseen states cells =>
            obtain ⟨rfl, rfl, -⟩ : y = x ∧ l = k ∧ .pending = s' := by
              simpa [Effect.writes] using hwrites
            simp [hs] at unseen
        | issue y l p pending fresh made states cells =>
            obtain ⟨rfl, rfl, rfl⟩ : y = x ∧ l = k ∧ .placeholderIssued p = s' := by
              simpa [Effect.writes] using hwrites
            obtain rfl : s = .pending := Option.some.inj (hs.symm.trans pending)
            exact Nat.le_succ 1
        | record y l v states cells =>
            obtain ⟨-, -, rfl⟩ : y = x ∧ l = k ∧ .resolved v = s' := by
              simpa [Effect.writes] using hwrites
            exact Stage.le_resolved _
        | _ => simp [Effect.writes] at hwrites
      · exact absurd hpermits hd

/-- A placeholder stays until a value is recorded for its key. -/
theorem issued_or_resolved (h : w.Obeys w' d) (hd : d ≠ .clear x) {p : Placeholder V}
    (hp : w.keyState x k = some (.placeholderIssued p) ∨ w.stage x k = .resolved) :
    w'.keyState x k = some (.placeholderIssued p) ∨ w'.stage x k = .resolved := by
  rcases hp with hp | hresolved
  · obtain ⟨e, hshift, hpermits, -⟩ := h.shift
    rcases hshift.settled_lasts hp (by simp) with hsame | ⟨v, -, hv⟩ | rfl
    · exact Or.inl hsame
    · exact Or.inr (by rw [stage, hv]; rfl)
    · exact absurd hpermits hd
  · have hle := h.stage_le hd k
    rw [hresolved] at hle
    exact Or.inr (Stage.eq_resolved_of_le hle)

/-- A recorded value stays, unless another one is to be recorded in its place. -/
theorem resolved_source (h : w.Obeys w' d) (hd : d ≠ .clear x) {u : V}
    (hu : w.keyState x k = some (.resolved u)) :
    w'.keyState x k = some (.resolved u) ∨
      ∃ v, d = .record x k v true ∧ w'.keyState x k = some (.resolved v) := by
  obtain ⟨e, hshift, hpermits, -⟩ := h.shift
  rcases hshift.settled_lasts hu (by simp) with hsame | ⟨v, rfl, hv⟩ | rfl
  · exact Or.inl hsame
  · obtain ⟨overwrite, rfl, hold⟩ := hpermits
    cases overwrite with
    | true => exact Or.inr ⟨v, rfl, hv⟩
    | false => exact absurd hu (hold rfl u)
  · exact absurd hpermits hd

end Obeys

variable [ToString K] [BEq V]

/-- An addition to a context that is refused, or that repeats the recorded value, changes
nothing. It is refused for a foreign key, and for a different value. -/
theorem record_inert {w w' : World K N V σ B} {x : ContextId} {k : K} {v : V}
    {r : Except Violation Unit} (h : w.record x k v false = some (r, w')) :
    (∀ e, r = .error e → w' = w ∧ (e = .duplicateKey (toString k) ∨
      e = .foreignKey (toString k))) ∧
      ∀ u, w.keyState x k = some (.resolved u) → (u == v) = true → w' = w := by
  cases records_of_record h with
  | @refused _ context e found rejected =>
      refine ⟨fun e' he => ⟨rfl, Or.inr ?_⟩, fun _ _ _ => rfl⟩
      obtain rfl : e = e' := by simpa using he
      rw [World.checkKey] at rejected
      split at rejected
      · simp at rejected
      · obtain ⟨cache, -, rejected⟩ := Option.map_eq_some_iff.1 rejected
        rw [Cache.checkKey] at rejected
        split at rejected
        · simp at rejected
        · exact (Except.error.inj rejected).symm
  | unchanged found resolved same => exact ⟨fun e he => by simp at he, fun _ _ _ => rfl⟩
  | duplicate found resolved differs =>
      exact ⟨fun e he => ⟨rfl, Or.inl (by simpa using he.symm)⟩, fun _ _ _ => rfl⟩
  | written found accepted unresolved =>
      rw [keyState_of_context? found]
      exact ⟨fun e he => by simp at he, fun u hu => absurd hu (unresolved rfl u)⟩

end World

/-! ### What a step does for a key -/

namespace Machine

variable [DecidableEq K] [ToString K]

/-- The next step calls the builder for the key, within the pass of the context. -/
def CallsFor (m : Machine K N V σ B) (x : ContextId) (k : K) : Prop :=
  (∃ asker, m.focus = .ask x k asker) ∧ m.called? = some k

/-- The next step asks the placeholder factory for a stand-in for the key, within the pass of the
context. -/
def IssuesFor (m : Machine K N V σ B) (x : ContextId) (k : K) : Prop :=
  (∃ asker, m.focus = .ask x k asker) ∧ m.issued? = some k

/-- The next step answers a request for the key with a value although none is published for it
and none is recorded: with a stand-in. -/
def StandsIn (m : Machine K N V σ B) (x : ContextId) (k : K) (u : V) : Prop :=
  (∃ asker w, m.focus = .ask x k asker ∧
    m.world.lookup x k = some (.answered (.ok (some u)), w)) ∧
  (∀ c, m.world.parent? x = some c → m.world.stored c k = none) ∧
  ∀ v, m.world.keyState x k ≠ some (.resolved v)

omit [DecidableEq K] [ToString K] in
/-- The next step records the value in place of whatever is recorded for the key, because a
routine wants it to. -/
def Overwrites (m : Machine K N V σ B) (x : ContextId) (k : K) (v : V) : Prop :=
  ∃ next, m.focus = .run (.perform (.record x k v true) next)

omit [DecidableEq K] [ToString K] in
/-- The builder call for the key, within the pass of the context, returns the value now. -/
def ReturnsFor (m : Machine K N V σ B) (x : ContextId) (k : K) (v : V) : Prop :=
  m.focus = .run (.done (.ok v)) ∧
    ∃ frame rest, m.stack = frame :: rest ∧ frame.context = x ∧ frame.key = k

omit [DecidableEq K] [ToString K] in
/-- A value is recorded where a routine says so, or by the return of the key's own builder call. -/
theorem records_or_returns {m : Machine K N V σ B} {x : ContextId} {k : K} {v : V}
    {overwrite : Bool} (h : m.demand = .record x k v overwrite) :
    (∃ next, m.focus = .run (.perform (.record x k v overwrite) next)) ∨ m.ReturnsFor x k v := by
  obtain ⟨w, focus, stack⟩ := m
  rw [demand] at h
  split at h
  · rename_i r next hfocus
    obtain rfl : focus = _ := hfocus
    cases r <;> simp only [Request.demand, Demand.record.injEq, reduceCtorEq] at h
    obtain ⟨rfl, rfl, rfl, rfl⟩ := h
    exact Or.inl ⟨next, rfl⟩
  · rename_i u frame rest hfocus hstack
    obtain ⟨rfl, rfl, rfl, -⟩ := Demand.record.inj h
    exact Or.inr ⟨hfocus, frame, rest, hstack, rfl, rfl⟩
  all_goals simp at h

variable [DecidableEq N] [BEq V] {body : B → ContextId → K → Body K N V σ B}
  {m m' : Machine K N V σ B} {x : ContextId} {k : K}

/-- A request for a key within a pass leaves the world that looking the key up leaves. -/
theorem world_of_lookup {asker : Asker K N V σ B} {l : World.Lookup V B} {w : World K N V σ B}
    (hfocus : m.focus = .ask x k asker) (hlookup : m.world.lookup x k = some (l, w))
    (hstep : m.step body = some m') : m'.world = w := by
  obtain ⟨w₀, focus, stack⟩ := m
  obtain rfl : focus = .ask x k asker := hfocus
  cases Transition.of_step hstep with
  | askAnswered answered =>
      exact (Prod.mk.inj (Option.some.inj (answered.symm.trans hlookup))).2
  | askBuild b missed =>
      exact (Prod.mk.inj (Option.some.inj (missed.symm.trans hlookup))).2

/-- A builder is called for a key that was not seen before, and the key is pending from then
on. -/
theorem CallsFor.stages (h : m.CallsFor x k) (hstep : m.step body = some m') :
    m.world.stage x k = .unseen ∧ m'.world.stage x k = .pending := by
  obtain ⟨⟨asker, hfocus⟩, hcalled⟩ := h
  obtain ⟨w, focus, stack⟩ := m
  obtain rfl : focus = .ask x k asker := hfocus
  cases Transition.of_step hstep with
  | askAnswered answered => simp [called?, answered] at hcalled
  | askBuild b missed =>
      obtain ⟨-, -, -, hmark⟩ := World.lookup_build missed
      cases hmark with
      | mark _ _ unseen states _ =>
          exact ⟨by simpa [World.stage] using unseen, by simp [World.stage, states, Entry.stage]⟩

/-- A placeholder is asked for when a pending key is requested again. -/
theorem IssuesFor.stages (h : m.IssuesFor x k) (hstep : m.step body = some m') :
    m.world.stage x k = .pending ∧ m'.world.stage x k = .placeholderIssued := by
  obtain ⟨⟨asker, hfocus⟩, hissued⟩ := h
  rw [issued?, hfocus] at hissued
  dsimp only at hissued
  split at hissued
  · rename_i l w hpending hlookup
    split at hissued
    · rename_i p hp
      rw [World.stage, World.stage, world_of_lookup hfocus hlookup hstep, hpending, hp]
      exact ⟨rfl, rfl⟩
    · simp at hissued
  · simp at hissued

/-- A stand-in that is given for a key is the one of the placeholder that is issued for it. -/
theorem StandsIn.issued {u : V} (h : m.StandsIn x k u) (hstep : m.step body = some m') :
    ∃ p, m'.world.keyState x k = some (.placeholderIssued p) ∧ u = p.standIn := by
  obtain ⟨⟨asker, w, hfocus, hlookup⟩, hunpublished, hunrecorded⟩ := h
  obtain ⟨hobeys, -⟩ := World.lookup_inv hlookup
  obtain rfl := world_of_lookup hfocus hlookup hstep
  cases World.lookup_answered hlookup rfl with
  | published c _ parent stored =>
      obtain ⟨context, hx, -⟩ := Option.bind_eq_some_iff.1 hlookup
      rw [hobeys.grows.parent_eq hx] at parent
      rcases hobeys.source c k u stored with hold | ⟨hd, -⟩ | ⟨y, hd, -⟩
      · rw [hunpublished c parent] at hold
        simp at hold
      · simp at hd
      · simp at hd
  | recorded _ state =>
      obtain ⟨e, hshift, hpermits, -⟩ := hobeys.shift
      rcases hshift.recorded_source state with hold | rfl
      · exact absurd hold (hunrecorded u)
      · obtain ⟨overwrite, hd, -⟩ := hpermits
        simp at hd
  | standIn p state => exact ⟨p, state, rfl⟩

/-- What the builder of a key returns is recorded for the key when the request is answered with
it. -/
theorem ReturnsFor.recorded {v : V} (h : m.ReturnsFor x k v) (hadmitted : m.world.Admitted)
    {s : Entry V} (hs : m.world.keyState x k = some s) (hstep : m.step body = some m') :
    (∃ asker, m'.focus = .reply x k (.ok (some v)) asker) ∧
      m'.world.answer (.recorded x k) = some (.ok v, m'.world) := by
  obtain ⟨hfocus, frame, rest, hstack, rfl, rfl⟩ := h
  obtain ⟨w, focus, stack⟩ := m
  obtain rfl : focus = _ := hfocus
  obtain rfl : stack = _ := hstack
  cases hx : w.context? frame.context with
  | none => simp [World.keyState, hx] at hs
  | some context =>
      have hcheck := hadmitted.checkKey hx hs
      simp only [step, stepRun, bind, Option.bind_eq_some_iff] at hstep
      obtain ⟨⟨answer, w'⟩, hrecord, hstep⟩ := hstep
      have hanswer : answer = .ok () := by
        cases World.records_of_record hrecord with
        | refused found rejected =>
            obtain rfl := Option.some.inj (hx.symm.trans found)
            simp [hcheck] at rejected
        | written found accepted unresolved => rfl
      subst hanswer
      obtain rfl := Option.some.inj hstep
      refine ⟨⟨frame.asker, rfl⟩, ?_⟩
      rcases World.record_inv hrecord with ⟨-, hno⟩ | ⟨-, hgrows, hshift, -, -⟩
      · simp at hno
      · cases hshift with
        | record _ _ _ states _ =>
            obtain ⟨context', hx', -⟩ := hgrows.contexts _ _ hx
            have hv := states frame.context frame.key
            rw [World.keyState_of_context? hx'] at hv
            simp [World.answer, move, hx', Context.get, Context.get?, hv, Entry.value?]

end Machine

/-! ### Runs -/

section Runs

variable [DecidableEq K] [DecidableEq N] [BEq V] [ToString K]
  {body : B → ContextId → K → Body K N V σ B}

/-- The course of a key from one moment of a run to another: it goes through the pass of the
context once. -/
structure GoesThroughOnce (e : Interleaving body) (x : ContextId) (k : K) (first last : Nat) :
    Prop where
  forward : ∀ i j, first ≤ i → i ≤ j → j ≤ last →
    (e.state i).world.stage x k ≤ (e.state j).world.stage x k
  called_once : ∀ i j, first ≤ i → i < last → first ≤ j → j < last →
    (e.state i).CallsFor x k → (e.state j).CallsFor x k → i = j
  issued_once : ∀ i j, first ≤ i → i < last → first ≤ j → j < last →
    (e.state i).IssuesFor x k → (e.state j).IssuesFor x k → i = j
  one_standIn : ∀ i j u v, first ≤ i → i < last → first ≤ j → j < last →
    (e.state i).StandsIn x k u → (e.state j).StandsIn x k v → u = v
  /-- A recorded value is replaced by overwriting it, or by the return of the key's own builder
  call. -/
  replaced : ∀ i u, first ≤ i → i < last → (e.state i).world.keyState x k = some (.resolved u) →
    (e.state (i + 1)).world.keyState x k = some (.resolved u) ∨
      ∃ v, ((e.state i).Overwrites x k v ∨ (e.state i).ReturnsFor x k v) ∧
        (e.state (i + 1)).world.keyState x k = some (.resolved v)
  /-- When the builder call of a key that was seen returns a value, the request is answered with
  it, and the context gives this value for the key from that moment. -/
  returned : ∀ i v s m, first ≤ i → i < last → (e.state i).ReturnsFor x k v →
    (e.state i).world.keyState x k = some s → (e.state i).step body = some m →
    (∃ asker, m.focus = .reply x k (.ok (some v)) asker) ∧
      m.world.answer (.recorded x k) = some (.ok v, m.world)
  /-- An addition that is refused, or that repeats the recorded value, changes nothing. -/
  inert : ∀ i v next r w, first ≤ i → i < last →
    (e.state i).focus = .run (.perform (.record x k v false) next) →
    (e.state i).world.answer (.record x k v false) = some (r, w) →
    (∀ err, r = .error err → (e.state (i + 1)).world = (e.state i).world ∧
      (err = .duplicateKey (toString k) ∨ err = .foreignKey (toString k))) ∧
    ∀ u, (e.state i).world.keyState x k = some (.resolved u) → (u == v) = true →
      (e.state (i + 1)).world = (e.state i).world

variable (e : Interleaving body) {x : ContextId} {first last : Nat}

/-- In every state, the keys seen in an attached context lie in the namespace of its parent. -/
theorem interleaving_admitted {i : Nat} (hi : i ≤ e.length) : (e.state i).world.Admitted := by
  refine e.invariant (I := fun m => m.world.Admitted) ?_ ?_ hi
  · rintro m ⟨client, hm⟩
    rw [hm]
    exact World.Admitted.empty_world client
  · rintro m m' ⟨m₁, hm, hworld⟩ ha
    rw [hworld]
    exact (Transition.of_step hm).obeys.admitted ha

variable (hlength : last ≤ e.length)
variable (uncleared : ∀ i, first ≤ i → i < last → (e.state i).demand ≠ .clear x)
include hlength uncleared

/-- A key never goes back to an earlier stage. -/
theorem stage_forward (k : K) {i j : Nat} (hi : first ≤ i) (hij : i ≤ j) (hj : j ≤ last) :
    (e.state i).world.stage x k ≤ (e.state j).world.stage x k := by
  refine e.lasts (P := fun m => (e.state i).world.stage x k ≤ m.world.stage x k) hij
    (Stage.refl _) fun l hil hlj hle => ?_
  have hl : l < last := Nat.lt_of_lt_of_le hlj hj
  have hobeys := interleaving_obeys e (Nat.lt_of_lt_of_le hl hlength)
  exact Stage.trans hle (hobeys.stage_le (uncleared l (Nat.le_trans hi hil) hl) k)

/-- A key leaves a stage once. -/
theorem leaves_once (k : K) {i j : Nat} {s : Stage} (hi : first ≤ i) (hil : i < last)
    (hj : first ≤ j) (hjl : j < last) (hsi : (e.state i).world.stage x k = s)
    (hsj : (e.state j).world.stage x k = s)
    (hi' : s.rank < ((e.state (i + 1)).world.stage x k).rank)
    (hj' : s.rank < ((e.state (j + 1)).world.stage x k).rank) : i = j := by
  have hlater {i j : Nat} (hi : first ≤ i) (hij : i < j) (hjl : j < last)
      (hsj : (e.state j).world.stage x k = s)
      (hi' : s.rank < ((e.state (i + 1)).world.stage x k).rank) : False := by
    have hle : (e.state (i + 1)).world.stage x k ≤ (e.state j).world.stage x k :=
      stage_forward e hlength uncleared k (Nat.le_succ_of_le hi) hij (Nat.le_of_lt hjl)
    rw [Stage.le_iff, hsj] at hle
    exact Nat.not_lt.2 hle hi'
  rcases Nat.lt_trichotomy i j with hij | hij | hij
  · exact (hlater hi hij hjl hsj hi').elim
  · exact hij
  · exact (hlater hj hij hil hsi hj').elim

/-- Two placeholders that are in place for one key are the same one. -/
theorem issued_unique (k : K) {i j : Nat} {p q : Placeholder V} (hi : first ≤ i) (hij : i ≤ j)
    (hj : j ≤ last) (hp : (e.state i).world.keyState x k = some (.placeholderIssued p))
    (hq : (e.state j).world.keyState x k = some (.placeholderIssued q)) : p = q := by
  have hkept : (e.state j).world.keyState x k = some (.placeholderIssued p) ∨
      (e.state j).world.stage x k = .resolved := by
    refine e.lasts (P := fun m => m.world.keyState x k = some (.placeholderIssued p) ∨
      m.world.stage x k = .resolved) hij (Or.inl hp) fun l hil hlj hkept => ?_
    have hl : l < last := Nat.lt_of_lt_of_le hlj hj
    exact (interleaving_obeys e (Nat.lt_of_lt_of_le hl hlength)).issued_or_resolved
      (uncleared l (Nat.le_trans hi hil) hl) hkept
  rcases hkept with hp | hresolved
  · rw [hp] at hq
    exact Entry.placeholderIssued.inj (Option.some.inj hq)
  · simp [World.stage, hq, Entry.stage] at hresolved

/-- As long as its context is not cleared, a key goes through the pass once, whatever the
builders do: its state moves forward, its builder is called at most once, the placeholder factory
is asked for it at most once, and all requests that are answered with a stand-in get the same
one. -/
theorem key_goes_through_once (k : K) : GoesThroughOnce e x k first last where
  forward i j := stage_forward e hlength uncleared k
  called_once i j hi hil hj hjl hcalls hcalls' := by
    obtain ⟨m, hm, hworld⟩ := e.goes i (Nat.lt_of_lt_of_le hil hlength)
    obtain ⟨m', hm', hworld'⟩ := e.goes j (Nat.lt_of_lt_of_le hjl hlength)
    obtain ⟨hunseen, hpending⟩ := hcalls.stages hm
    obtain ⟨hunseen', hpending'⟩ := hcalls'.stages hm'
    refine leaves_once e hlength uncleared k hi hil hj hjl hunseen hunseen' ?_ ?_
    · rw [hworld, hpending]
      exact Nat.zero_lt_one
    · rw [hworld', hpending']
      exact Nat.zero_lt_one
  issued_once i j hi hil hj hjl hissues hissues' := by
    obtain ⟨m, hm, hworld⟩ := e.goes i (Nat.lt_of_lt_of_le hil hlength)
    obtain ⟨m', hm', hworld'⟩ := e.goes j (Nat.lt_of_lt_of_le hjl hlength)
    obtain ⟨hpending, hissued⟩ := hissues.stages hm
    obtain ⟨hpending', hissued'⟩ := hissues'.stages hm'
    refine leaves_once e hlength uncleared k hi hil hj hjl hpending hpending' ?_ ?_
    · rw [hworld, hissued]
      exact Nat.one_lt_two
    · rw [hworld', hissued']
      exact Nat.one_lt_two
  one_standIn i j u v hi hil hj hjl hu hv := by
    obtain ⟨m, hm, hworld⟩ := e.goes i (Nat.lt_of_lt_of_le hil hlength)
    obtain ⟨m', hm', hworld'⟩ := e.goes j (Nat.lt_of_lt_of_le hjl hlength)
    obtain ⟨p, hp, rfl⟩ := hu.issued hm
    obtain ⟨q, hq, rfl⟩ := hv.issued hm'
    rw [← hworld] at hp
    rw [← hworld'] at hq
    rcases Nat.le_total i j with hij | hji
    · rw [issued_unique e hlength uncleared k (Nat.le_succ_of_le hi) (Nat.succ_le_succ hij) hjl
        hp hq]
    · rw [issued_unique e hlength uncleared k (Nat.le_succ_of_le hj) (Nat.succ_le_succ hji) hil
        hq hp]
  replaced i u hi hil hu := by
    have hobeys := interleaving_obeys e (Nat.lt_of_lt_of_le hil hlength)
    rcases hobeys.resolved_source (uncleared i hi hil) hu with hsame | ⟨v, hdemand, hv⟩
    · exact Or.inl hsame
    · exact Or.inr ⟨v, Machine.records_or_returns hdemand, hv⟩
  returned i v s m hi hil hreturns hs hm := by
    have hi' : i ≤ e.length := Nat.le_trans (Nat.le_of_lt hil) hlength
    exact hreturns.recorded (interleaving_admitted e hi') hs hm
  inert i v next r w hi hil hfocus hanswer := by
    obtain ⟨m, hm, hworld⟩ := e.goes i (Nat.lt_of_lt_of_le hil hlength)
    have hmade : m.world = w := by
      rw [Machine.step, hfocus] at hm
      simp only [Machine.stepRun, hanswer, bind, Option.bind_some] at hm
      exact (congrArg Machine.world (Option.some.inj hm)).symm
    obtain ⟨hrefused, hrepeated⟩ := World.record_inert hanswer
    rw [hworld, hmade]
    exact ⟨hrefused, hrepeated⟩

end Runs

/-! ### A builder that changes its mind -/

namespace AddedThenReplaced

/-- The builder requests its own key, adds a value for it twice, tries to add another one, and
returns a third. -/
def body (_ : Unit) (x : ContextId) (k : Nat) : Body Nat Unit Nat Unit Unit :=
  .build x k fun _ => .perform (.record x k 5 false) fun _ => .perform (.record x k 5 false)
    fun _ => .perform (.record x k 6 false) fun _ => .build x k fun _ => .done (.ok 9)

/-- Stand-ins are told apart by their cells. -/
def config : Config Nat Nat Unit Unit where
  makeBuilder := some fun client => ((), client)
  placeholders := some fun _ cell client => ((.forwarding, 100 + cell.index), client)

/-- A cache is made, and a key requested. -/
def main : Machine Nat Unit Nat Unit Unit :=
  .start { client := () } (.perform (.newCache config) fun c => .get c 7 .done)

theorem main_runs : ∀ i < 16, ((main.run body i).step body).isSome = true := by
  decide +kernel

/-- The pass of the key. -/
def session : Interleaving body :=
  main.runExecution 16 ⟨(), rfl⟩ (fun _ m' h => ⟨m', h, rfl⟩) main_runs

/-- The builder of the key is called, its own request is answered with a stand-in, and the value
that it adds is replaced by the one that it returns. -/
theorem session_goes_through_once :
    (∀ i, 0 ≤ i → i < 16 → (session.state i).demand ≠ .clear ⟨0⟩) ∧
      (session.state 3).CallsFor ⟨0⟩ 7 ∧
      (session.state 5).IssuesFor ⟨0⟩ 7 ∧
      (session.state 5).StandsIn ⟨0⟩ 7 100 ∧
      (session.state 13).ReturnsFor ⟨0⟩ 7 9 ∧
      GoesThroughOnce session ⟨0⟩ 7 0 16 := by
  have uncleared : ∀ i < 16, (session.state i).demand ≠ .clear ⟨0⟩ := by
    decide +kernel
  have hlength : 16 ≤ session.length := Nat.le_refl _
  refine ⟨fun i _ => uncleared i, ⟨⟨_, rfl⟩, rfl⟩, ⟨⟨_, rfl⟩, rfl⟩,
    ⟨⟨_, _, rfl, rfl⟩, fun c hc => ?_, fun v hv => ?_⟩, ⟨rfl, _, _, rfl, rfl, rfl⟩,
    key_goes_through_once session hlength (fun i _ => uncleared i) 7⟩
  · obtain rfl : (⟨0⟩ : CacheId) = c := Option.some.inj hc
    rfl
  · have hpending : (session.state 5).world.keyState ⟨0⟩ 7 = some .pending := rfl
    simp [hpending] at hv

end AddedThenReplaced

end DerivationCache
