import DerivationCache.Proofs.Execution
import DerivationCache.Proofs.Unfolding

/-!
# Cyclic results

The builder of a key requests each of the key's dependencies in order, and lists the label of the
key and the answers (`gather`). Dependencies may be cyclic: a key that is requested while it is
being derived is answered with a link. This module proves that the published values mean the same
whatever was requested before, and in which order: each of them unfolds to the reference tree of
its key.

The invariant is `Machine.Gathers`. All values in the world stand for their keys
(`World.Denotes`), and each running builder has gathered answers that stand for the dependencies
it has come to so far. Since the world is closed as well, published values can be unfolded to any
depth.

## Main results

* `Machine.Gathers.step`: the invariant is preserved by every step.
* `published_unfolds_iff`: in every state of a sequence of requests, a published value unfolds to
  the reference tree of its key, at every depth, and to nothing else.
-/

namespace DerivationCache

open Script

variable {K N σ B : Type}

/-! ### The builder -/

section Builder

variable (label : K → Value)

/-- Requests the dependencies that are left within the pass of a context, and lists the label of
the key with the answers. Errors are passed on. -/
def gather (x : ContextId) (k : K) : List K → List Value → Body K N Value σ B
  | [], answers => .done (.ok (.list (label k :: answers)))
  | d :: rest, answers => .build x d fun
    | .ok (some v) => gather x k rest (answers ++ [v])
    | .ok none => .panic "no builder"
    | .error e => .done (.error e)

/-- How the builder goes on once it has an answer. -/
def gatherNext (x : ContextId) (k : K) (rest : List K) (answers : List Value) :
    Except RequestError (Option Value) → Body K N Value σ B
  | .ok (some v) => gather label x k rest (answers ++ [v])
  | .ok none => .panic "no builder"
  | .error e => .done (.error e)

/-- A dependency is requested, and then the rest of them. -/
theorem gather_cons (x : ContextId) (k d : K) (rest : List K) (answers : List Value) :
    (gather label x k (d :: rest) answers : Body K N Value σ B) =
      .build x d (gatherNext label x k rest answers) := by
  rfl

end Builder

/-- The builders of the cache gather the dependencies of their keys, and its stand-ins are
links. -/
structure Config.Gathers (config : Config K Value σ B)
    (body : B → ContextId → K → Body K N Value σ B) (deps : K → List K) (label : K → Value) :
    Prop where
  builder : ∀ make, config.makeBuilder = some make →
    ∀ client x k, body (make client).1 x k = gather label x k (deps k) []
  placeholders : ∀ make, config.placeholders = some make →
    ∀ k cell client, (make k cell client).1 = (.forwarding, .forward cell)

section Invariant

variable (body : B → ContextId → K → Body K N Value σ B) (config : Config K Value σ B)
variable (deps : K → List K) (label : K → Value) (owner : CellId → K → Prop) (c : CacheId)

/-! ### The invariant -/

/-- The context has a builder that gathers, and its stand-ins are links. -/
def World.Equipped (w : World K N Value σ B) (x : ContextId) : Prop :=
  ∃ context, w.context? x = some context ∧
    (∀ b, context.builder = some b → ∀ y k, body b y k = gather label y k (deps k) []) ∧
    ∀ make, context.placeholders = some make →
      ∀ k cell client, (make k cell client).1 = (.forwarding, .forward cell)

/-- The receiver is the request of a session, which ends with the outcome. -/
def Receiver.Outermost : Receiver K N Value σ B → Prop
  | .caller next => ∀ r, next r = .done r
  | .crowd _ _ _ => False

variable [DecidableEq K]

/-- The answers stand for the keys, and belong to the pass of the context. -/
structure World.Gathered (w : World K N Value σ B) (x : ContextId) (ks : List K)
    (answers : List Value) : Prop where
  stand : List.Forall₂ (Stands deps label owner) ks answers
  within : ∀ v ∈ answers, w.Within Value.links x v

/-- Who asks for a key within a pass is the builder of the innermost call, which has come to this
dependency, or the outermost request. -/
def Asker.Gathers (w : World K N Value σ B) (x : ContextId) (d : K) :
    Asker K N Value σ B → List (Frame K N Value σ B) → Prop
  | .routine next, frame :: _ => frame.context = x ∧ ∃ pre rest answers,
      deps frame.key = pre ++ d :: rest ∧ w.Gathered deps label owner x pre answers ∧
      next = gatherNext label x frame.key rest answers
  | .routine _, [] => False
  | .pass p receiver, stack => stack = [] ∧ p.cache = c ∧ receiver.Outermost

/-- Each call in progress was made by the one below it. -/
def World.Stacks (w : World K N Value σ B) : List (Frame K N Value σ B) → Prop
  | [] => True
  | frame :: rest => w.Equipped body deps label frame.context ∧
      frame.asker.Gathers deps label owner c w frame.context frame.key rest ∧ w.Stacks rest

/-- The innermost builder has come to some dependency, or its call ends. Without a call, there is
the request of a session, or its end. -/
def Focus.Gathers (w : World K N Value σ B) (stack : List (Frame K N Value σ B)) :
    Focus K N Value σ B → Prop
  | .run r => (∃ e, r = .done (.error e)) ∨ (∃ message, r = .panic message) ∨
    match stack with
    | frame :: _ => ∃ pre rest answers, deps frame.key = pre ++ rest ∧
        w.Gathered deps label owner frame.context pre answers ∧
        r = gather label frame.context frame.key rest answers
    | [] => (∃ v, r = .done (.ok v)) ∨ ∃ k, r = Routine.derive c k
  | .ask x d asker => w.Equipped body deps label x ∧ asker.Gathers deps label owner c w x d stack
  | .reply x d _ asker =>
    w.Equipped body deps label x ∧ asker.Gathers deps label owner c w x d stack
  | .attempt p receiver => stack = [] ∧ p.cache = c ∧ receiver.Outermost
  | .deliver _ _ _ receiver => stack = [] ∧ receiver.Outermost
  | .wake _ _ _ _ _ => False

/-- All values stand for their keys, the world is closed, and each running builder has gathered
values that stand for its dependencies. -/
structure Machine.Gathers (m : Machine K N Value σ B) : Prop where
  closed : m.Closed Value.links
  denotes : m.world.Denotes deps label owner
  configured : ∃ cache, m.world.cache? c = some cache ∧ cache.config = config
  focus : m.focus.Gathers body deps label owner c m.world m.stack
  stack : m.world.Stacks body deps label owner c m.stack

end Invariant

section Preservation

variable [DecidableEq K] {body : B → ContextId → K → Body K N Value σ B}
variable {config : Config K Value σ B} {deps : K → List K} {label : K → Value}
variable {owner : CellId → K → Prop} {c : CacheId}

/-! ### What outlives a step -/

/-- A context keeps its builder and its placeholders. -/
theorem World.Equipped.grows {w w' : World K N Value σ B} {x : ContextId}
    (h : w.Equipped body deps label x) (hgrows : w.Grows w') :
    w'.Equipped body deps label x := by
  obtain ⟨context, hx, hbuilder, hplaceholders⟩ := h
  obtain ⟨context', hx', -, hb, hp⟩ := hgrows.contexts x context hx
  exact ⟨context', hx', by rw [hb]; exact hbuilder, by rw [hp]; exact hplaceholders⟩

/-- The world has grown, and values go on belonging to their passes. -/
structure World.Continues (w w' : World K N Value σ B) : Prop where
  grows : w.Grows w'
  within : ∀ {x v}, w.Within Value.links x v → w'.Within Value.links x v

variable {w w' : World K N Value σ B}

/-- What has been gathered stays so. -/
theorem World.Gathered.continues {x : ContextId} {ks : List K} {answers : List Value}
    (h : w.Gathered deps label owner x ks answers) (hw : w.Continues w') :
    w'.Gathered deps label owner x ks answers :=
  ⟨h.stand, fun v hv => hw.within (h.within v hv)⟩

/-- So does what a builder goes on with. -/
theorem Asker.Gathers.continues {x : ContextId} {d : K} {asker : Asker K N Value σ B}
    {stack : List (Frame K N Value σ B)} (h : asker.Gathers deps label owner c w x d stack)
    (hw : w.Continues w') : asker.Gathers deps label owner c w' x d stack := by
  cases asker with
  | pass p receiver => exact h
  | routine next =>
      cases stack with
      | nil => exact h
      | cons frame rest =>
          obtain ⟨hx, pre, rest', answers, hdeps, hgathered, hnext⟩ := h
          exact ⟨hx, pre, rest', answers, hdeps, hgathered.continues hw, hnext⟩

/-- So does the work of all builders that are running. -/
theorem World.Stacks.continues {stack : List (Frame K N Value σ B)}
    (h : w.Stacks body deps label owner c stack) (hw : w.Continues w') :
    w'.Stacks body deps label owner c stack := by
  induction stack with
  | nil => exact trivial
  | cons frame rest ih =>
      obtain ⟨hequipped, hasker, hrest⟩ := h
      exact ⟨hequipped.grows hw.grows, hasker.continues hw, ih hrest⟩

/-! ### What a step demands -/

/-- The end of a builder that has gathered all answers lists them. -/
theorem World.Gathered.lists {x : ContextId} {k : K} {answers : List Value}
    (h : w.Gathered deps label owner x (deps k) answers) (atom : (label k).isAtom = true) :
    Lists deps label owner k (.list (label k :: answers)) ∧
      w.Within Value.links x (.list (label k :: answers)) := by
  refine ⟨⟨answers, rfl, h.stand⟩, fun cell ho hnone => ?_⟩
  have hlinks : ∀ l ∈ Value.links (.list (label k :: answers)),
      ∃ u, u ∈ answers ∧ w.cells.Occurs Value.links u l := by
    intro l hl
    obtain ⟨u, hu, hl⟩ := Value.mem_linksAll.1 hl
    rcases List.mem_cons.1 hu with rfl | hu
    · simp [Value.links_of_isAtom atom] at hl
    · exact ⟨u, hu, .link hl⟩
  obtain ⟨u, hu, ho⟩ := ho.of_links hlinks
  exact h.within u hu cell ho hnone

variable {m m' : Machine K N Value σ B}

/-- A running builder records nothing but lists that stand for its key, built from values of its
pass. -/
theorem Machine.Gathers.demand (hm : m.Gathers body config deps label owner c)
    (atoms : ∀ k, (label k).isAtom = true) :
    m.demand.Listing deps label owner ∧ m.demand.Honest Value.links m.world := by
  have hfocus := hm.focus
  obtain ⟨w, focus, stack⟩ := m
  cases focus with
  | run r =>
      rcases hfocus with ⟨e, rfl⟩ | ⟨message, rfl⟩ | hrun
      · exact ⟨trivial, trivial⟩
      · exact ⟨trivial, trivial⟩
      · cases stack with
        | nil =>
            rcases hrun with ⟨v, rfl⟩ | ⟨k, rfl⟩
            · exact ⟨trivial, trivial⟩
            · exact ⟨trivial, trivial⟩
        | cons frame rest =>
            obtain ⟨pre, left, answers, hdeps, hgathered, rfl⟩ := hrun
            cases left with
            | nil =>
                rw [List.append_nil] at hdeps
                subst hdeps
                exact hgathered.lists (atoms frame.key)
            | cons d left => exact ⟨trivial, trivial⟩
  | ask x k asker => exact ⟨trivial, trivial⟩
  | reply x k answer asker =>
      match answer, asker with
      | .error e, _ => exact ⟨trivial, trivial⟩
      | .ok none, _ => exact ⟨trivial, trivial⟩
      | .ok (some v), .routine next => exact ⟨trivial, trivial⟩
      | .ok (some v), .pass p receiver => exact ⟨trivial, trivial⟩
  | attempt p receiver => exact ⟨trivial, trivial⟩
  | deliver d k outcome receiver => exact ⟨trivial, trivial⟩
  | wake d k waiting outcomes next => exact ⟨trivial, trivial⟩

/-! ### What builders do -/

/-- What the innermost routine does next. -/
theorem Focus.Gathers.routine_cases {stack : List (Frame K N Value σ B)}
    {r : Body K N Value σ B}
    (h : (Focus.run r).Gathers body deps label owner c w stack) :
    (∃ result, r = .done result) ∨ (∃ message, r = .panic message) ∨
      (∃ x d next, r = .build x d next ∧ (w.Stacks body deps label owner c stack →
        (Focus.ask x d (.routine next)).Gathers body deps label owner c w stack)) ∨
      ∃ k, r = Routine.derive c k ∧ stack = [] := by
  rcases h with ⟨e, rfl⟩ | ⟨message, rfl⟩ | hrun
  · exact Or.inl ⟨_, rfl⟩
  · exact Or.inr (Or.inl ⟨message, rfl⟩)
  · cases stack with
    | nil =>
        rcases hrun with ⟨v, rfl⟩ | ⟨k, rfl⟩
        · exact Or.inl ⟨_, rfl⟩
        · exact Or.inr (Or.inr (Or.inr ⟨k, rfl, rfl⟩))
    | cons frame rest =>
        obtain ⟨pre, left, answers, hdeps, hgathered, rfl⟩ := hrun
        cases left with
        | nil => exact Or.inl ⟨_, rfl⟩
        | cons d left =>
            refine Or.inr (Or.inr (Or.inl ⟨_, d, _, gather_cons .., fun hstack => ?_⟩))
            exact ⟨hstack.1, rfl, pre, left, answers, hdeps, hgathered, rfl⟩

/-- A context that the cache makes has a builder that gathers. -/
theorem World.Equipped.of_createContext {w₁ : World K N Value σ B} {x : ContextId}
    (hconfig : config.Gathers body deps label) {cache : Cache K Value σ B}
    (hcache : w.cache? c = some cache) (hsame : cache.config = config)
    (hcreate : w.createContext c = some (x, w₁)) : w₁.Equipped body deps label x := by
  obtain ⟨cache', context, hcache', -, hx, -, -, hb, hp, -⟩ := World.createContext_inv hcreate
  obtain rfl : cache = cache' := Option.some.inj (hcache.symm.trans hcache')
  refine ⟨context, hx, fun b hbuilder => ?_, fun make hmake => ?_⟩
  · rw [hb, hsame, Option.map_eq_some_iff] at hbuilder
    obtain ⟨make, hmake, rfl⟩ := hbuilder
    exact hconfig.builder make hmake _
  · rw [hp, hsame] at hmake
    exact hconfig.placeholders make hmake

/-- A builder that is given an answer has come to its next dependency, or ends. -/
theorem Asker.Gathers.answered {x : ContextId} {k : K}
    {next : Except RequestError (Option Value) → Body K N Value σ B}
    {stack : List (Frame K N Value σ B)}
    (h : (Asker.routine next).Gathers deps label owner c w x k stack)
    (answer : Except RequestError (Option Value))
    (hstands : ∀ v, answer = .ok (some v) →
      Stands deps label owner k v ∧ w.Within Value.links x v) :
    (Focus.run (next answer)).Gathers body deps label owner c w stack := by
  cases stack with
  | nil => exact absurd h id
  | cons frame rest =>
      obtain ⟨rfl, pre, left, answers, hdeps, hgathered, rfl⟩ := h
      match answer with
      | .error e => exact Or.inl ⟨e, rfl⟩
      | .ok none => exact Or.inr (Or.inl ⟨_, rfl⟩)
      | .ok (some v) =>
          obtain ⟨hv, hwithin⟩ := hstands v rfl
          refine Or.inr (Or.inr ⟨pre ++ [k], left, answers ++ [v], ?_, ⟨?_, ?_⟩, rfl⟩)
          · rw [hdeps, List.append_assoc, List.singleton_append]
          · exact List.rel_append hgathered.stand (.cons hv .nil)
          · intro u hu
            rcases List.mem_append.1 hu with hu | hu
            · exact hgathered.within u hu
            · rw [List.mem_singleton.1 hu]
              exact hwithin

/-- A request of the session starts with what the session has so far. -/
theorem Machine.Gathers.request (hclosed : w.Closed Value.links)
    (hdenotes : w.Denotes deps label owner)
    (configured : ∃ cache, w.cache? c = some cache ∧ cache.config = config) (k : K) :
    (Machine.start w (Routine.derive c k)).Gathers body config deps label owner c where
  closed := .start hclosed _
  denotes := hdenotes
  configured := configured
  focus := Or.inr (Or.inr (Or.inr ⟨k, rfl⟩))
  stack := trivial

/-! ### The step -/

variable [DecidableEq N] [ToString K]

/-- Stand-ins are links to their cells. -/
theorem Machine.Gathers.standIns (hm : m.Gathers body config deps label owner c)
    (h : Transition body m m') {x : ContextId} {k : K} {p : Placeholder Value}
    (hp : m'.world.keyState x k = some (.placeholderIssued p)) : p.standIn = .forward p.cell := by
  obtain ⟨e, hshift, hpermits, -⟩ := h.obeys.shift
  rcases hshift.issued_source hp with hp | rfl
  · exact hm.denotes.standIns hp
  · obtain ⟨asker, hfocus⟩ := Machine.focus_of_demand_request hpermits
    have hequipped := hm.focus
    rw [hfocus] at hequipped
    obtain ⟨⟨context, hx, -, hplaceholders⟩, -⟩ := hequipped
    cases hshift with
    | issue _ _ _ _ _ made _ _ =>
        obtain ⟨context', make, client, hx', hmake, hmade⟩ := made
        obtain rfl : context = context' := Option.some.inj (hx.symm.trans hx')
        rw [hplaceholders make hmake] at hmade
        exact (congrArg Prod.snd hmade).symm

/-- What a step makes of the builders in progress. -/
theorem Transition.gathers (h : Transition body m m')
    (hm : m.Gathers body config deps label owner c) (hc : m.world.Continues m'.world)
    (hconfig : config.Gathers body deps label) :
    m'.focus.Gathers body deps label owner c m'.world m'.stack ∧
      m'.world.Stacks body deps label owner c m'.stack := by
  have hstack := hm.stack
  have hfocus := hm.focus
  cases h with
  | returnError e =>
      obtain ⟨hequipped, hasker, hrest⟩ := hstack
      exact ⟨⟨hequipped, hasker⟩, hrest⟩
  | returnRefused e =>
      obtain ⟨hequipped, hasker, hrest⟩ := hstack
      exact ⟨⟨hequipped, hasker⟩, hrest⟩
  | returnRecorded recorded =>
      obtain ⟨hequipped, hasker, hrest⟩ := hstack
      exact ⟨⟨hequipped.grows hc.grows, hasker.continues hc⟩, hrest.continues hc⟩
  | unwindRoutine message =>
      obtain ⟨-, -, hrest⟩ := hstack
      exact ⟨Or.inr (Or.inl ⟨message, rfl⟩), hrest⟩
  | unwindPass message idles =>
      obtain ⟨-, ⟨rfl, -, houtermost⟩, -⟩ := hstack
      exact ⟨⟨rfl, houtermost⟩, trivial⟩
  | perform r next answered =>
      -- A gathering builder performs nothing, and neither does the request of a session.
      rcases hfocus.routine_cases with ⟨r, hr⟩ | ⟨message, hr⟩ | ⟨x, d, next, hr, -⟩ |
          ⟨k, hr, -⟩ <;>
        simp [Routine.derive] at hr
  | build =>
      rcases hfocus.routine_cases with ⟨r, hr⟩ | ⟨message, hr⟩ | ⟨x, d, next, hr, hasker⟩ |
        ⟨k, hr, -⟩
      · simp at hr
      · simp at hr
      · obtain ⟨rfl, rfl, rfl⟩ := Routine.build.inj hr
        exact ⟨hasker hstack, hstack⟩
      · simp [Routine.derive] at hr
  | get idles reached =>
      rcases hfocus.routine_cases with ⟨r, hr⟩ | ⟨message, hr⟩ | ⟨x, d, next, hr, -⟩ |
        ⟨k, hr, rfl⟩
      · simp at hr
      · simp at hr
      · simp at hr
      · obtain ⟨rfl, rfl, rfl⟩ := Routine.get.inj hr
        have houtermost : (Receiver.caller .done : Receiver K N Value σ B).Outermost :=
          fun _ => rfl
        cases reached with
        | outcome r stored => exact ⟨⟨rfl, houtermost⟩, trivial⟩
        | claimed thread => exact ⟨⟨rfl, rfl, houtermost⟩, trivial⟩
  | race idles stored =>
      rcases hfocus.routine_cases with ⟨r, hr⟩ | ⟨message, hr⟩ | ⟨x, d, next, hr, -⟩ |
          ⟨k, hr, -⟩ <;>
        simp [Routine.derive] at hr
  | askAnswered answered =>
      exact ⟨⟨hfocus.1.grows hc.grows, hfocus.2.continues hc⟩, hstack.continues hc⟩
  | askBuild b missed =>
      obtain ⟨⟨context, hx, hbuilder, hplaceholders⟩, hasker⟩ := hfocus
      obtain ⟨context', hx', hb, -⟩ := World.lookup_build missed
      obtain rfl : context = context' := Option.some.inj (hx.symm.trans hx')
      refine ⟨Or.inr (Or.inr ⟨[], _, [], rfl, ⟨.nil, fun v hv => by simp at hv⟩,
        hbuilder b hb _ _⟩), ?_, hasker.continues hc, hstack.continues hc⟩
      exact World.Equipped.grows ⟨context, hx, hbuilder, hplaceholders⟩ hc.grows
  | replyRoutine =>
      refine ⟨hfocus.2.answered _ fun v hv => ?_, hstack⟩
      subst hv
      have hgives := hm.closed.backed rfl
      exact ⟨hgives.stands hm.denotes, hgives.within hm.closed.world⟩
  | passFailed e idles =>
      obtain ⟨-, rfl, -, houtermost⟩ := hfocus
      exact ⟨⟨rfl, houtermost⟩, trivial⟩
  | committed commit idles =>
      obtain ⟨-, rfl, -, houtermost⟩ := hfocus
      exact ⟨⟨rfl, houtermost⟩, trivial⟩
  | conflictSettled commit stored idles =>
      obtain ⟨-, rfl, -, houtermost⟩ := hfocus
      exact ⟨⟨rfl, houtermost⟩, trivial⟩
  | conflictRetried commit => exact ⟨hfocus.2, hstack.continues hc⟩
  | exhausted e idles =>
      obtain ⟨rfl, -, houtermost⟩ := hfocus
      exact ⟨⟨rfl, houtermost⟩, trivial⟩
  | attempt left idles created =>
      obtain ⟨rfl, rfl, houtermost⟩ := hfocus
      obtain ⟨cache, hcache, rfl⟩ := hm.configured
      obtain ⟨cache', hcache', hsame⟩ := idles.grows.caches _ cache hcache
      exact ⟨⟨.of_createContext hconfig hcache' hsame created, rfl, rfl, houtermost⟩, trivial⟩
  | deliverReturned r =>
      obtain ⟨rfl, houtermost⟩ := hfocus
      refine ⟨?_, trivial⟩
      cases r with
      | error e => exact Or.inl ⟨e, houtermost _⟩
      | ok v => exact Or.inr (Or.inr (Or.inl ⟨v, houtermost _⟩))
  | deliverPanicked message => exact ⟨Or.inr (Or.inl ⟨message, rfl⟩), hstack⟩
  | deliverCrowd => exact absurd hfocus.2 id
  | wakeDone => exact absurd hfocus id
  | wakeNext idles reached => exact absurd hfocus id

/-- Every step preserves the invariant, as long as no cell belongs to two keys. -/
theorem Machine.Gathers.step (hm : m.Gathers body config deps label owner c)
    (h : Transition body m m') (hconfig : config.Gathers body deps label)
    (atoms : ∀ k, (label k).isAtom = true)
    (functional : ∀ {h k l}, owner h k → owner h l → k = l)
    (owned : ∀ {x k h}, m'.world.Awaits x k h → owner h k) :
    m'.Gathers body config deps label owner c := by
  obtain ⟨hlisting, hhonest⟩ := hm.demand atoms
  have hown : m'.world.StandInsOwn Value.links := by
    intro x k p hp cell hcell
    rw [hm.standIns h hp] at hcell
    exact List.mem_singleton.1 hcell
  have hcontinues : m.world.Continues m'.world :=
    ⟨h.obeys.grows, h.obeys.within hm.closed.world.awaiting hhonest⟩
  obtain ⟨hfocus, hstack⟩ := h.gathers hm hcontinues hconfig
  obtain ⟨cache, hcache, hcacheconfig⟩ := hm.configured
  obtain ⟨cache', hcache', hsame⟩ := h.obeys.grows.caches _ cache hcache
  exact ⟨hm.closed.step h hhonest hown,
    hm.denotes.obeys h.obeys hlisting functional owned fun hp => hm.standIns h hp,
    ⟨cache', hcache', hsame.trans hcacheconfig⟩, hfocus, hstack⟩

end Preservation

/-! ### Sequences of requests -/

section Sessions

variable [DecidableEq K] {body : B → ContextId → K → Body K N Value σ B}
variable {config : Config K Value σ B} {deps : K → List K} {label : K → Value}

/-- The first request to the only cache of a world, which has nothing in it. -/
def Machine.Opens (config : Config K Value σ B) (m : Machine K N Value σ B) : Prop :=
  ∃ client k, m = start (World.newCache { client } config).2 (Routine.derive ⟨0⟩ k)

/-- The first request finds nothing that is published, recorded or awaited. -/
theorem Machine.Opens.gathers {m : Machine K N Value σ B} {owner : CellId → K → Prop}
    (h : m.Opens config) (functional : ∀ {h k l}, owner h k → owner h l → k = l) :
    m.Gathers body config deps label owner ⟨0⟩ := by
  obtain ⟨client, k, rfl⟩ := h
  have hobeys := World.newCache_obeys ({ client } : World K N Value σ B) config .nothing
  have hnone (x : ContextId) (l : K) :
      (World.newCache ({ client } : World K N Value σ B) config).2.keyState x l = none := by
    simp [World.newCache, World.keyState, World.context?]
  refine .request ?_ ?_ ⟨.ofConfig config, ?_, rfl⟩ k
  · refine (World.Closed.empty_world client).obeys hobeys trivial fun x l p hp => ?_
    simp [hnone] at hp
  · refine (World.Denotes.empty_world client).obeys hobeys trivial functional ?_ ?_
    · rintro x l h ⟨p, hp, -⟩
      simp [hnone] at hp
    · intro x l p hp
      simp [hnone] at hp
  · rw [World.cache?_newCache]
    exact if_pos rfl

variable [DecidableEq N] [ToString K]

/-- A request goes on, or the next one is made. -/
inductive Machine.Requests (body : B → ContextId → K → Body K N Value σ B) :
    Machine K N Value σ B → Machine K N Value σ B → Prop
  | step {m m'} (made : m.step body = some m') : Requests body m m'
  | request {m} (ended : m.step body = none) (client : σ) (k : K) :
      Requests body m (start { m.world with client } (Routine.derive ⟨0⟩ k))

/-- Each change obeys some demand. -/
theorem Machine.Requests.obeys {m m' : Machine K N Value σ B} (h : Requests body m m') :
    ∃ d, m.world.Obeys m'.world d := by
  cases h with
  | step made => exact ⟨_, (Transition.of_step made).obeys⟩
  | request ended client k => exact ⟨.nothing, (World.Idles.setClient m.world client).obeys _⟩

variable (e : Execution (Machine.Opens config) (Machine.Requests body))

/-- The keys that a cell is ever awaited for. -/
def Owns (h : CellId) (k : K) : Prop :=
  ∃ i ≤ e.length, ∃ x, (e.state i).world.Awaits x k h

/-- In every state, awaited cells are empty and awaited for one key only. -/
theorem requests_awaiting {i : Nat} (hi : i ≤ e.length) : (e.state i).world.Awaiting := by
  refine e.invariant (I := fun m => m.world.Awaiting) ?_ ?_ hi
  · rintro m ⟨client, k, rfl⟩
    exact (World.newCache_obeys _ config .nothing).awaiting (World.Awaiting.empty_world client)
  · intro m m' h ha
    obtain ⟨d, hobeys⟩ := h.obeys
    exact hobeys.awaiting ha

/-- No cell is ever awaited for two keys. -/
theorem Owns.functional {h : CellId} {k l : K} (hk : Owns e h k) (hl : Owns e h l) : k = l := by
  have hle {i j : Nat} {x y : ContextId} {k l : K} (hij : i ≤ j) (hj : j ≤ e.length)
      (hk : (e.state i).world.Awaits x k h) (hl : (e.state j).world.Awaits y l h) : l = k := by
    have hawaiting := requests_awaiting e (Nat.le_trans hij hj)
    have hlast := e.lasts (P := fun m => h.index < m.world.cells.size ∧
      ∀ y l, m.world.Awaits y l h → l = k) hij
      ⟨hawaiting.made hk, fun y l hl => (hawaiting.sole hk hl).2.symm⟩ fun n _ hn hP => by
        obtain ⟨d, hobeys⟩ := (e.goes n (Nat.lt_of_lt_of_le hn hj)).obeys
        exact hobeys.awaited_for hP
    exact hlast.2 y l hl
  obtain ⟨i, hi, x, hk⟩ := hk
  obtain ⟨j, hj, y, hl⟩ := hl
  rcases Nat.le_total i j with hij | hji
  · exact (hle hij hj hk hl).symm
  · exact hle hji hi hl hk

/-! ### The unfolding of published values -/

/-- Whether a request goes on or the next one is made, the invariant is preserved. -/
theorem Machine.Gathers.requests {owner : CellId → K → Prop} {m m' : Machine K N Value σ B}
    (hm : m.Gathers body config deps label owner ⟨0⟩) (h : Requests body m m')
    (hconfig : config.Gathers body deps label)
    (atoms : ∀ k, (label k).isAtom = true)
    (functional : ∀ {h k l}, owner h k → owner h l → k = l)
    (owned : ∀ {x k h}, m'.world.Awaits x k h → owner h k) :
    m'.Gathers body config deps label owner ⟨0⟩ := by
  cases h with
  | step made => exact hm.step (.of_step made) hconfig atoms functional owned
  | request ended client k =>
      have hobeys := (World.Idles.setClient m.world client).obeys .nothing
      refine .request (hm.closed.world.obeys hobeys trivial fun x l p hp h hh => ?_)
        (hm.denotes.obeys hobeys trivial functional owned hm.denotes.standIns) hm.configured k
      rw [hm.denotes.standIns hp] at hh
      exact List.mem_singleton.1 hh

/-- In every state the invariant holds, with the cells owned by the keys they are ever awaited
for. -/
theorem requests_gathers (hconfig : config.Gathers body deps label)
    (atoms : ∀ k, (label k).isAtom = true) {i : Nat} (hi : i ≤ e.length) :
    (e.state i).Gathers body config deps label (Owns e) ⟨0⟩ := by
  have hfunctional {h : CellId} {k l : K} (hk : Owns e h k) (hl : Owns e h l) : k = l :=
    Owns.functional e hk hl
  induction i with
  | zero => exact e.starts.gathers hfunctional
  | succ i ih =>
      have hm := ih (Nat.le_of_succ_le hi)
      exact hm.requests (e.goes i hi) hconfig atoms hfunctional fun ha => ⟨i + 1, hi, _, ha⟩

/-- Cyclic results mean the same whatever was requested first: in every state of a sequence of
requests, a published value unfolds to the reference tree of its key, at every depth, and to
nothing else. -/
theorem published_unfolds_iff (hconfig : config.Gathers body deps label)
    (atoms : ∀ k, (label k).isAtom = true) {i : Nat} (hi : i ≤ e.length) {c : CacheId} {k : K}
    {v : Value} (hv : (e.state i).world.stored c k = some v) (n : Nat) (t : Tree) :
    (e.state i).world.cells.Unfolds n v t ↔ t = reference deps label n k := by
  have hm := requests_gathers e hconfig atoms hi
  have hstands := (hm.denotes.published hv).stands
  exact hm.denotes.unfolds_iff atoms n hstands (hm.closed.world.published hv) t

end Sessions

/-! ### Two keys that need each other -/

namespace MutualKeys

/-- Each of the keys needs the other one, and `false` needs itself as well. -/
def deps : Bool → List Bool
  | true => [false]
  | false => [true, false]

/-- The name of the key. -/
def label (k : Bool) : Value :=
  .str (toString k)

/-- The builder of every key gathers its dependencies. -/
def body (_ : Unit) (x : ContextId) (k : Bool) : Body Bool Unit Value Unit Unit :=
  gather label x k (deps k) []

/-- Stand-ins are links. -/
def config : Config Bool Value Unit Unit where
  makeBuilder := some fun client => ((), client)
  placeholders := some fun _ cell client => ((.forwarding, .forward cell), client)

/-- The cache has the builders and the stand-ins that are asked for. -/
theorem config_gathers : config.Gathers body deps label where
  builder _ _ _ _ _ := rfl
  placeholders make hmake k cell client := by
    obtain rfl := Option.some.inj hmake
    rfl

/-- A cache is made, and `true` requested. -/
def main : Machine Bool Unit Value Unit Unit :=
  .start (World.newCache { client := () } config).2 (Routine.derive ⟨0⟩ true)

/-- Makes a step. If there is none to make, `false` is requested. -/
def advance (m : Machine Bool Unit Value Unit Unit) : Machine Bool Unit Value Unit Unit :=
  (m.step body).getD (.start { m.world with client := () } (Routine.derive ⟨0⟩ false))

/-- What is done next is a step or another request. -/
theorem advance_requests (m : Machine Bool Unit Value Unit Unit) :
    Machine.Requests body m (advance m) := by
  rw [advance]
  cases hstep : m.step body with
  | some m' => exact .step hstep
  | none => exact .request hstep () false

/-- First `true` is requested, and then `false`. -/
def session : Execution (Machine.Opens config) (Machine.Requests body) where
  length := 19
  state i := Nat.repeat advance i main
  starts := ⟨(), true, rfl⟩
  goes _ _ := advance_requests _

/-- The key `false` was derived for `true`, so it is published with a link to the cell of `true`.
Still it unfolds to its reference tree. -/
theorem session_unfolds :
    (session.state 19).world.stored ⟨0⟩ false =
        some (.list [.str "false", .forward ⟨0⟩, .forward ⟨1⟩]) ∧
      (session.state 19).world.cells.Unfolds 2
        (.list [.str "false", .forward ⟨0⟩, .forward ⟨1⟩])
        (.node [.atom (.str "false"), .node [.atom (.str "true"), .leaf],
          .node [.atom (.str "false"), .leaf, .leaf]]) := by
  have hstored : (session.state 19).world.stored ⟨0⟩ false =
      some (.list [.str "false", .forward ⟨0⟩, .forward ⟨1⟩]) := rfl
  have hunfolds := published_unfolds_iff session config_gathers (fun _ => rfl)
    (by decide) hstored 2
  exact ⟨hstored, (hunfolds _).2 rfl⟩

end MutualKeys

end DerivationCache
