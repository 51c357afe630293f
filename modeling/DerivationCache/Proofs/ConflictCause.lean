import DerivationCache.Proofs.CommitDecision
import DerivationCache.Proofs.Retries

/-!
# What a pass loses against

A commit is turned down if a recorded value contradicts a published one. A value that a builder call
returned was recorded for a key that had no published value when the builder was called, since the
published value would have been the answer. So the contradicting value was published after that, and
all the more after the pass was started. The only other way is a value that a routine has recorded
itself (`RecordedBy`), for which nobody has looked.

A builder that only requests keys of its pass neither publishes nor records anything itself. So a
pass of such builders is never lost, unless somebody else publishes values meanwhile.

## Main results

* `PassRun.Runs.traced`: where the recorded values of a pass come from.
* `PassRun.Runs.lost_cause`: why a commit is turned down.
* `PassRun.Runs.calm`: a pass of builders that only request keys.
* `request_retries`: how often a request tries, and when it ends with a conflict.
-/

namespace DerivationCache

variable {K N V σ B : Type}

/-! ### Builders that only request keys -/

/-- The routine requests keys within the pass of this context, and does nothing else that changes
an entry or a value. -/
inductive Routine.OnlyRequests (x : ContextId) : Body K N V σ B → Prop
  | done (result : Except RequestError V) : OnlyRequests x (.done result)
  | panic (message : String) : OnlyRequests x (.panic message)
  | halt : OnlyRequests x .halt
  | perform {request : Request K N V σ B} {next : request.Answer → Body K N V σ B}
      (idle : request.demand = .nothing) (after : ∀ a, OnlyRequests x (next a)) :
      OnlyRequests x (.perform request next)
  | build {k : K} {next : Except RequestError (Option V) → Body K N V σ B}
      (after : ∀ answer, OnlyRequests x (next answer)) : OnlyRequests x (.build x k next)

/-- The routine that asks for a key goes on in this way. -/
def Asker.OnlyRequests (x : ContextId) : Asker K N V σ B → Prop
  | .routine next => ∀ answer, (next answer).OnlyRequests x
  | .pass _ _ => False

/-- A builder that only requests keys is at work. -/
def Focus.OnlyRequests (x : ContextId) : Focus K N V σ B → Prop
  | .run b => b.OnlyRequests x
  | .ask y _ asker => y = x ∧ asker.OnlyRequests x
  | .reply y _ _ asker => y = x ∧ asker.OnlyRequests x
  | _ => False

/-- A pass of the request goes on, and its builders only request keys. -/
inductive Query.Calm (q : Query K N V σ B) (left : Nat) (x : ContextId) : Machine K N V σ B → Prop
  | asks {w : World K N V σ B} :
      Calm q left x ⟨w, .ask x q.key (.pass (q.pass left) q.receiver), q.stack⟩
  | builds {w : World K N V σ B} {focus : Focus K N V σ B} (above : List (Frame K N V σ B))
      {thread : ThreadId} (working : focus.OnlyRequests x)
      (waiting : ∀ frame ∈ above, frame.context = x ∧ frame.asker.OnlyRequests x) :
      Calm q left x ⟨w, focus, above ++ q.frame left x thread :: q.stack⟩
  | answered {w : World K N V σ B} (answer : Except RequestError (Option V)) :
      Calm q left x ⟨w, .reply x q.key answer (.pass (q.pass left) q.receiver), q.stack⟩

namespace Query.Calm

variable {q : Query K N V σ B} {left : Nat} {x : ContextId} {m : Machine K N V σ B}

/-- What goes on in the world does not matter for how calm the pass is. -/
theorem congr (h : q.Calm left x m) (w : World K N V σ B) :
    q.Calm left x { m with world := w } := by
  cases h with
  | asks => exact .asks
  | builds above working waiting => exact .builds above working waiting
  | answered answer => exact .answered answer

/-- No routine requests anything that changes an entry or a value. -/
theorem idle (h : q.Calm left x m) {r : Request K N V σ B} {next : r.Answer → Body K N V σ B}
    (hfocus : m.focus = .run (.perform r next)) : r.demand = .nothing := by
  cases h with
  | asks => simp at hfocus
  | answered answer => simp at hfocus
  | builds above working waiting =>
      obtain rfl : _ = Focus.run (.perform r next) := hfocus
      cases working with
      | perform idle after => exact idle

/-- An answer for a pass is the answer of this one. -/
theorem answered_of_pass (h : q.Calm left x m) {y : ContextId} {k : K} {p : Pass K}
    {answer : Except RequestError (Option V)} {receiver : Receiver K N V σ B}
    (hfocus : m.focus = .reply y k answer (.pass p receiver)) : q.Answered left x answer m := by
  cases h with
  | asks => simp at hfocus
  | answered answer =>
      obtain ⟨-, -, rfl, -⟩ := Focus.reply.inj hfocus
      exact ⟨rfl, rfl⟩
  | builds above working waiting =>
      obtain rfl : _ = Focus.reply y k answer (.pass p receiver) := hfocus
      exact working.2.elim

end Query.Calm

/-! ### Steps of a pass -/

section Steps

variable [DecidableEq K]

/-- Published values change by insertions and commits alone. -/
theorem World.Obeys.stored_eq {w w' : World K N V σ B} {d : Demand K V} (h : w.Obeys w' d)
    (uninserted : ∀ c k v, d ≠ .insert c k v) (uncommitted : ∀ x, d ≠ .commit x) (c : CacheId)
    (k : K) : w'.stored c k = w.stored c k := by
  ext v
  constructor
  · intro hv
    rcases h.source c k v hv with hold | ⟨hd, -⟩ | ⟨x, hd, -⟩
    · exact hold
    · exact absurd hd (uninserted c k v)
    · exact absurd hd (uncommitted x)
  · exact h.grows.stored c k v

variable [DecidableEq N] [BEq V] [ToString K] {body : B → ContextId → K → Body K N V σ B}
  {q : Query K N V σ B} {left : Nat} {x : ContextId} {m m' : Machine K N V σ B}

namespace Machine

omit [DecidableEq K] [DecidableEq N] [BEq V] [ToString K] in
/-- A value is inserted by a routine. -/
theorem focus_of_demand_insert {c : CacheId} {k : K} {v : V} (h : m.demand = .insert c k v) :
    ∃ (r : Request K N V σ B) (next : r.Answer → Body K N V σ B),
      m.focus = .run (.perform r next) ∧ r.demand = .insert c k v := by
  rw [demand] at h
  split at h
  · rename_i r next hfocus
    exact ⟨r, next, hfocus, h⟩
  all_goals simp at h

omit [DecidableEq K] [DecidableEq N] [BEq V] [ToString K] in
/-- A context is committed by a routine, or by a pass that has a value. -/
theorem focus_of_demand_commit {y : ContextId} (h : m.demand = .commit y) :
    (∃ (r : Request K N V σ B) (next : r.Answer → Body K N V σ B),
      m.focus = .run (.perform r next) ∧ r.demand = .commit y) ∨
      ∃ k v p receiver, m.focus = .reply y k (.ok (some v)) (.pass p receiver) := by
  rw [demand] at h
  split at h
  · rename_i r next hfocus
    exact Or.inl ⟨r, next, hfocus, h⟩
  · simp at h
  · simp at h
  · rename_i z k v p receiver hfocus
    obtain rfl := Demand.commit.inj h
    exact Or.inr ⟨k, v, p, receiver, hfocus⟩
  · simp at h

end Machine

namespace Query

/-- While the pass goes on, such builders publish nothing. -/
theorem Calm.stored (h : q.Calm left x m) (made : m.step body = some m')
    (goes_on : q.InPass left x m') (c : CacheId) (k : K) :
    m'.world.stored c k = m.world.stored c k := by
  refine (Transition.of_step made).obeys.stored_eq (fun d l v hd => ?_) (fun y hd => ?_) c k
  · obtain ⟨r, next, hfocus, hr⟩ := Machine.focus_of_demand_insert hd
    simp [h.idle hfocus] at hr
  · rcases Machine.focus_of_demand_commit hd with ⟨r, next, hfocus, hr⟩ |
      ⟨l, v, p, receiver, hfocus⟩
    · simp [h.idle hfocus] at hr
    · exact goes_on.not_finishes ((h.answered_of_pass hfocus).step made)

/-- While the pass goes on, its builders only request keys. -/
theorem Calm.step (h : q.Calm left x m) (made : m.step body = some m')
    (goes_on : q.InPass left x m')
    (builders : ∀ context b l, m.world.context? x = some context → context.builder = some b →
      (body b x l).OnlyRequests x) : q.Calm left x m' := by
  have hbuilds {w' : World K N V σ B} {y : ContextId} {l : K} {b : B} (hy : y = x)
      (missed : m.world.lookup y l = some (.build b, w')) : (body b y l).OnlyRequests x := by
    obtain ⟨context, hx, hb, -⟩ := World.lookup_build missed
    subst hy
    exact builders context b l hx hb
  have htransition := Transition.of_step made
  cases h with
  | asks =>
      cases htransition with
      | askAnswered answered => exact .answered _
      | @askBuild _ _ _ _ _ thread _ b missed =>
          exact .builds [] (hbuilds rfl missed) (by simp)
  | answered answer => exact absurd (Answered.step ⟨rfl, rfl⟩ made) goes_on.not_finishes
  | @builds w focus above thread working waiting =>
      generalize hstack : above ++ q.frame left x thread :: q.stack = stack at htransition
      have hreturns {frame : Frame K N V σ B} {rest : List (Frame K N V σ B)}
          (hs : above ++ q.frame left x thread :: q.stack = frame :: rest) (w' : World K N V σ B)
          (answer : Except RequestError (Option V)) :
          q.Calm left x ⟨w', .reply frame.context frame.key answer frame.asker, rest⟩ := by
        cases above with
        | nil =>
            obtain ⟨rfl, rfl⟩ := List.cons.inj hs
            exact .answered answer
        | cons top above =>
            obtain ⟨rfl, rfl⟩ := List.cons.inj hs
            exact .builds above (waiting top (List.mem_cons_self ..)) fun frame hframe =>
              waiting frame (List.mem_cons_of_mem top hframe)
      have hgoes (w' : World K N V σ B) {focus' : Focus K N V σ B}
          (working : focus'.OnlyRequests x) : q.Calm left x ⟨w', focus', stack⟩ :=
        hstack ▸ .builds above working waiting
      cases htransition with
      | returnError e => exact hreturns hstack _ _
      | returnRefused e => exact hreturns hstack _ _
      | returnRecorded recorded => exact hreturns hstack _ _
      | unwindRoutine message =>
          cases above with
          | nil => simp [frame] at hstack
          | cons top above =>
              obtain ⟨-, rfl⟩ := List.cons.inj hstack
              exact .builds above (.panic message) fun frame hframe =>
                waiting frame (List.mem_cons_of_mem top hframe)
      | unwindPass message idles =>
          -- Only the frame at the bottom is that of a pass, and with it the pass would have ended.
          cases above with
          | nil =>
              obtain ⟨hframe, rfl⟩ := List.cons.inj hstack
              obtain ⟨-, -, -, hasker⟩ := Frame.mk.inj hframe
              obtain ⟨rfl, rfl⟩ := Asker.pass.inj hasker
              exact absurd ⟨rfl, rfl⟩ (goes_on.not_delivers _)
          | cons top above =>
              obtain ⟨rfl, -⟩ := List.cons.inj hstack
              exact (waiting _ (List.mem_cons_self ..)).2.elim
      | perform r next answered =>
          cases working with
          | perform idle after => exact hgoes _ (after _)
      | build =>
          cases working with
          | build after => exact hgoes _ ⟨rfl, after⟩
      | get idles reached => cases working
      | race idles stored => cases working
      | askAnswered answered => exact hgoes _ ⟨working.1, working.2⟩
      | @askBuild _ w' y l asker thread' _ b missed =>
          obtain ⟨rfl, hasker⟩ := working
          refine hstack ▸ .builds (⟨y, l, thread', asker⟩ :: above) (hbuilds rfl missed)
            fun frame hframe => ?_
          rcases List.mem_cons.1 hframe with rfl | hframe
          · exact ⟨rfl, hasker⟩
          · exact waiting frame hframe
      | replyRoutine => exact hgoes _ (working.2 _)
      | passFailed e idles => exact working.2.elim
      | committed commit idles => exact working.2.elim
      | conflictSettled commit stored idles => exact working.2.elim
      | conflictRetried commit => exact working.2.elim
      | _ => exact working.elim

end Query

end Steps

/-! ### Runs -/

section Runs

variable [DecidableEq K] [DecidableEq N] [BEq V] [ToString K]
  {body : B → ContextId → K → Body K N V σ B} {init : Machine K N V σ B → Prop}

omit [DecidableEq N] [BEq V] [ToString K] in
/-- What is not published has not been published before. -/
theorem World.Grows.unstored {w w' : World K N V σ B} (h : w.Grows w') {c : CacheId} {k : K}
    (hk : w'.stored c k = none) : w.stored c k = none := by
  cases hv : w.stored c k with
  | none => rfl
  | some v => simp [h.stored c k v hv] at hk

/-- The world grows along a run. -/
theorem grows_between (e : Execution init (Machine.Advances body)) {i j : Nat} (hij : i ≤ j)
    (hj : j ≤ e.length) : (e.state i).world.Grows (e.state j).world :=
  e.lasts (P := fun m => (e.state i).world.Grows m.world) hij (World.Grows.refl _)
    fun n _ hnj h => h.trans (e.goes n (Nat.lt_of_lt_of_le hnj hj)).grows

variable (e : Execution init (Machine.Advances body)) (q : Query K N V σ B)

namespace PassRun

/-- A routine records a value for the key in the context of the pass, while the pass goes on. -/
def RecordedBy (r : PassRun) (d : K) : Prop :=
  ∃ i v overwrite next, r.start < i ∧ i < r.stop ∧
    (e.state i).step body = some (e.state (i + 1)) ∧
    (e.state i).focus = .run (.perform (.record r.context d v overwrite) next)

/-- The key has no published value when the context of the pass is made. -/
def Unpublished (r : PassRun) (d : K) : Prop :=
  (e.state (r.start + 1)).world.stored q.cache d = none

/-- Where the recorded values of a pass come from. The builder calls of its context are for keys
that had no published value, and so are the values that they return. -/
structure Traced (r : PassRun) (m : Machine K N V σ B) : Prop where
  parent : m.world.parent? r.context = some q.cache
  called : ∀ frame rest, frame :: rest <:+ m.stack → q.stack.length ≤ rest.length →
    frame.context = r.context → r.Unpublished e q frame.key
  recorded : ∀ d v, m.world.keyState r.context d = some (.resolved v) →
    r.Unpublished e q d ∨ r.RecordedBy e d

variable {e q} {r : PassRun} {left : Nat}

/-- A pass starts with nothing recorded and nothing called. -/
theorem Runs.traced_start (hr : r.Runs e q left) :
    r.Traced e q (e.state (r.start + 1)) := by
  obtain ⟨cache, -, hx, -⟩ := hr.opens.fresh
  refine ⟨by rw [World.parent?_of_context? hx], fun frame rest hsuffix hlength => ?_,
    fun d v hv => ?_⟩
  · rw [hr.opens.asks.1] at hsuffix
    have hle := hsuffix.length_le
    rw [List.length_cons] at hle
    omega
  · rw [World.keyState_of_context? hx] at hv
    simp at hv

/-- A step of the machine, while the pass goes on. -/
theorem Traced.own {n : Nat} (h : r.Traced e q (e.state n)) (hn : n < e.length)
    (hstart : r.start < n) (hstop : n < r.stop) (pass : q.InPass left r.context (e.state n))
    (made : (e.state n).step body = some (e.state (n + 1))) : r.Traced e q (e.state (n + 1)) := by
  have htransition := Transition.of_step made
  have hgrows := grows_between e (Nat.succ_le_of_lt hstart) (Nat.le_of_lt hn)
  refine ⟨htransition.obeys.grows.parent h.parent, fun frame rest hsuffix hlength hframe => ?_,
    fun d v hv => ?_⟩
  · by_cases hask : ∃ y l asker, (e.state n).focus = .ask y l asker
    · obtain ⟨y, l, asker, hfocus⟩ := hask
      have hparent := h.parent
      have hcalled := h.called
      generalize e.state (n + 1) = m' at htransition hsuffix
      generalize e.state n = m at htransition hfocus hparent hcalled hgrows
      obtain ⟨w, focus, stack⟩ := m
      obtain rfl : focus = .ask y l asker := hfocus
      cases htransition with
      | askAnswered answered => exact hcalled frame rest hsuffix hlength hframe
      | askBuild b missed =>
          rcases List.suffix_cons_iff.1 hsuffix with htop | hsuffix
          · obtain ⟨rfl, rfl⟩ := List.cons.inj htop
            obtain rfl : y = r.context := hframe
            exact hgrows.unstored (World.lookup_unpublished missed hparent)
          · exact hcalled frame rest hsuffix hlength hframe
    · have hstack := htransition.stack_suffix fun y l asker hfocus => hask ⟨y, l, asker, hfocus⟩
      exact h.called frame rest (hsuffix.trans hstack) hlength hframe
  · obtain ⟨effect, hshift, hpermits, -⟩ := htransition.obeys.shift
    rcases hshift.recorded_source hv with hold | rfl
    · exact h.recorded d v hold
    · obtain ⟨overwrite, hdemand, -⟩ := hpermits
      rcases Machine.records_or_returns hdemand with ⟨next, hfocus⟩ |
        ⟨hfocus, frame, rest, hstack, hcontext, rfl⟩
      · exact Or.inr ⟨n, v, overwrite, next, hstart, hstop, made, hfocus⟩
      · refine Or.inl (h.called frame rest (hstack ▸ List.suffix_rfl) ?_ hcontext)
        obtain ⟨above, thread, habove⟩ := pass.stack_of_run hfocus
        rw [hstack] at habove
        have hle := congrArg List.length habove
        simp only [List.length_cons, List.length_append] at hle
        omega

/-- A step of another machine leaves the context of the pass alone. -/
theorem Traced.other {m o : Machine K N V σ B} (h : r.Traced e q m)
    (grows : m.world.Grows o.world)
    (apart : ∀ d, o.world.keyState r.context d = m.world.keyState r.context d) :
    r.Traced e q { m with world := o.world } :=
  ⟨grows.parent h.parent, h.called, fun d v hv => h.recorded d v ((apart d).symm.trans hv)⟩

/-- As long as a pass goes on, its recorded values come from builder calls for keys that had no
published value when the pass was started, or a routine has recorded them itself. -/
theorem Runs.traced (hr : r.Runs e q left) (hlength : r.stop ≤ e.length) {i : Nat}
    (hstart : r.start < i) (hstop : i ≤ r.stop) : r.Traced e q (e.state i) := by
  refine e.lasts (P := r.Traced e q) hstart hr.traced_start fun n hn hni h => ?_
  have hlt : n < e.length := by omega
  have hpass := hr.lasts n hn (by omega)
  have hgoes := e.goes n hlt
  generalize hm : e.state (n + 1) = m' at hgoes
  cases hgoes with
  | own made => exact hm ▸ h.own hlt hn (by omega) hpass (hm ▸ made)
  | other o o' shares made apart =>
      refine h.other ?_ (apart _ hpass.holds)
      rw [← shares]
      exact (Transition.of_step made).obeys.grows

/-- A commit of a pass is turned down only because of a key with a recorded value that differs from
the published one, and either the key was published after the pass was started, or a routine has
recorded the value itself. -/
theorem Runs.lost_cause (hr : r.Runs e q left) (hlength : r.stop ≤ e.length) {w : World K N V σ B}
    (commit : (e.state r.stop).world.commit r.context = some (.ok false, w)) :
    ∃ d u v, (e.state r.stop).world.keyState r.context d = some (.resolved v) ∧
      (e.state r.stop).world.stored q.cache d = some u ∧ (u == v) = false ∧
      (r.Unpublished e q d ∨ r.RecordedBy e d) := by
  have htraced := hr.traced hlength hr.nonempty (Nat.le_refl _)
  obtain ⟨context, c, cache, cache', hx, hc, hcache, -, hpublish, -⟩ := World.commit_inv commit
  have hparent := htraced.parent
  rw [World.parent?_of_context? hx, hc] at hparent
  obtain rfl := Option.some.inj hparent
  have hconflicts : context.recorded.any cache.conflicts = true := by
    have hanswer := congrArg Prod.fst hpublish
    rw [Cache.publish_fst] at hanswer
    simpa using hanswer
  obtain ⟨d, u, v, hv, hu, hdiffer⟩ := (World.any_conflicts_iff hcache context).1 hconflicts
  rw [Context.get?_eq_some_iff, ← World.keyState_of_context? hx] at hv
  exact ⟨d, u, v, hv, hu, hdiffer, htraced.recorded d v hv⟩

/-- A pass whose builders only request keys publishes nothing, and nor do they record anything
themselves, as long as nobody else publishes values in the cache. -/
theorem Runs.calm (hr : r.Runs e q left) (hlength : r.stop ≤ e.length)
    (builders : ∀ cache make client l, (e.state r.start).world.cache? q.cache = some cache →
      cache.config.makeBuilder = some make →
      (body (make client).1 r.context l).OnlyRequests r.context)
    (alone : ∀ n, r.start < n → n < r.stop → (e.state n).step body ≠ some (e.state (n + 1)) →
      ∀ d, (e.state (n + 1)).world.stored q.cache d = (e.state n).world.stored q.cache d)
    {i : Nat} (hstart : r.start < i) (hstop : i ≤ r.stop) :
    q.Calm left r.context (e.state i) ∧ ∀ d, (e.state i).world.stored q.cache d =
      (e.state (r.start + 1)).world.stored q.cache d := by
  refine e.lasts (P := fun m => q.Calm left r.context m ∧ ∀ d, m.world.stored q.cache d =
    (e.state (r.start + 1)).world.stored q.cache d) hstart ⟨?_, fun d => rfl⟩
    fun n hn hni ⟨hcalm, hstored⟩ => ?_
  · obtain ⟨hstack, hfocus⟩ := hr.opens.asks
    generalize e.state (r.start + 1) = m at hstack hfocus
    obtain ⟨w, focus, stack⟩ := m
    obtain rfl : stack = q.stack := hstack
    obtain rfl : focus = _ := hfocus
    exact .asks
  · have hlt : n < e.length := by omega
    have goes_on := hr.lasts (n + 1) (by omega) (by omega)
    by_cases made : (e.state n).step body = some (e.state (n + 1))
    · refine ⟨hcalm.step made goes_on fun context b l hx hb => ?_,
        fun d => (hcalm.stored made goes_on q.cache d).trans (hstored d)⟩
      -- The builder of the context is the one that was made for it.
      obtain ⟨cache, hcache, hcontext, -⟩ := hr.opens.fresh
      obtain ⟨context', hx', -, hbuilder, -⟩ :=
        (grows_between e hn (Nat.le_of_lt hlt)).contexts _ _ hcontext
      obtain rfl := Option.some.inj (hx.symm.trans hx')
      rw [hbuilder, Option.map_eq_some_iff] at hb
      obtain ⟨make, hmake, rfl⟩ := hb
      exact builders cache make _ l hcache hmake
    · refine ⟨?_, fun d => (alone n hn (by omega) made d).trans (hstored d)⟩
      rcases goes_cases e hlt with h | ⟨w, hother⟩
      · exact absurd h made
      · rw [hother]
        exact hcalm.congr w

/-- Such a pass is never turned down. -/
theorem Runs.commit_ne_false (hr : r.Runs e q left) (hlength : r.stop ≤ e.length)
    (calm : ∀ i, r.start < i → i ≤ r.stop → q.Calm left r.context (e.state i) ∧
      ∀ d, (e.state i).world.stored q.cache d = (e.state (r.start + 1)).world.stored q.cache d)
    (w : World K N V σ B) : (e.state r.stop).world.commit r.context ≠ some (.ok false, w) := by
  intro commit
  obtain ⟨d, u, v, -, hu, -, hunpublished | ⟨i, v', overwrite, next, hi, hir, -, hfocus⟩⟩ :=
    hr.lost_cause hlength commit
  · rw [(calm r.stop hr.nonempty (Nat.le_refl _)).2 d, hunpublished] at hu
    simp at hu
  · have hidle := (calm i hi (Nat.le_of_lt hir)).1.idle hfocus
    simp [Request.demand] at hidle

end PassRun

/-- What is true of the passes of a request. -/
structure Retries (s t : Nat) (outcome : Outcome V) (rs : List PassRun) : Prop where
  course : Course e q s t outcome rs
  /-- A commit that is turned down has a cause outside of the builder calls of the pass. -/
  cause : ∀ r ∈ rs, ∀ w, (e.state r.stop).world.commit r.context = some (.ok false, w) →
    ∃ d u v, (e.state r.stop).world.keyState r.context d = some (.resolved v) ∧
      (e.state r.stop).world.stored q.cache d = some u ∧ (u == v) = false ∧
      (r.Unpublished e q d ∨ r.RecordedBy e d)
  /-- If the builders only request keys, and nobody else publishes values in the cache, then there
  is one pass at most, and no commit is turned down. -/
  calm : ∀ cache, (e.state s).world.cache? q.cache = some cache →
    (∀ make client x l, cache.config.makeBuilder = some make →
      (body (make client).1 x l).OnlyRequests x) →
    (∀ n, s ≤ n → n < t → (e.state n).step body ≠ some (e.state (n + 1)) →
      ∀ d, (e.state (n + 1)).world.stored q.cache d = (e.state n).world.stored q.cache d) →
    rs.length ≤ 1 ∧ ∀ r ∈ rs, ∀ w,
      (e.state r.stop).world.commit r.context ≠ some (.ok false, w)

variable {e q}

/-- A course that has taken place is one of retries. -/
theorem Course.retries {s t : Nat} {outcome : Outcome V} {rs : List PassRun}
    (h : Course e q s t outcome rs) (ht : t ≤ e.length) : Retries e q s t outcome rs := by
  have hstop {r : PassRun} (hr : r ∈ rs) : r.stop ≤ e.length :=
    Nat.le_trans (Nat.le_of_lt (h.started.between r hr).2) ht
  refine ⟨h, fun r hr w commit => ?_, fun cache hcache builders alone => ?_⟩
  · obtain ⟨left, hruns⟩ := h.started.runs_of_mem hr
    exact hruns.lost_cause (hstop hr) commit
  · have hkept : ∀ r ∈ rs, ∀ w,
        (e.state r.stop).world.commit r.context ≠ some (.ok false, w) := by
      intro r hr
      obtain ⟨left, hruns⟩ := h.started.runs_of_mem hr
      obtain ⟨hsr, hrt⟩ := h.started.between r hr
      have hstart : r.start ≤ e.length :=
        Nat.le_trans (Nat.le_of_lt hruns.nonempty) (hstop hr)
      refine hruns.commit_ne_false (hstop hr) fun i hi hir =>
        hruns.calm (hstop hr) (fun cache' make client l hcache' hmake => ?_)
          (fun n hn hnr => alone n (by omega) (by omega)) hi hir
      -- The configuration has not changed since the request was made.
      obtain ⟨cache₁, hcache₁, hconfig⟩ := (grows_between e hsr hstart).caches _ _ hcache
      obtain rfl := Option.some.inj (hcache'.symm.trans hcache₁)
      exact builders make client r.context l (hconfig ▸ hmake)
    refine ⟨?_, hkept⟩
    by_contra hmore
    obtain ⟨n, v, w, -, commit, -⟩ := (h.followed 0 (by omega) (by decide)).1 (by omega)
    exact hkept _ (List.getElem_mem _) w commit

/-- A request never starts more passes than allowed. When it has its outcome, then each of its
passes had a fresh context and a builder that was made for it, and a pass was followed by another
one if and only if it was lost, but for the last pass allowed. The outcome is a conflict if and only
if as many passes as allowed were lost, or the builder of the last one has returned this conflict
itself.

A commit that was turned down had recorded a value that contradicts one which was published after
the pass was started, or one for a key that a routine has recorded itself. So builders that only
request keys are never in the way of each other. -/
theorem request_retries {s t : Nat} (hst : s ≤ t) (ht : t ≤ e.length) (asks : q.Asks (e.state s))
    (first : ∀ j, s ≤ j → j < t → ∀ r, ¬ q.Delivers r (e.state j)) :
    (∃ starts : List Nat, starts.length ≤ passLimit ∧
      ∀ j, s ≤ j → j < t → StartsPass e q j → j ∈ starts) ∧
    ∀ outcome, q.Delivers outcome (e.state t) → ∃ rs, Retries e q s t outcome rs := by
  constructor
  · by_cases hdelivers : ∃ outcome, q.Delivers outcome (e.state t)
    · obtain ⟨outcome, hdelivers⟩ := hdelivers
      obtain ⟨rs, hcourse⟩ := Course.of_delivers hst ht asks hdelivers first
      refine ⟨rs.map PassRun.start, by rw [List.length_map]; exact hcourse.bounded,
        fun j hsj hjt hstarts => ?_⟩
      obtain ⟨r, hr, rfl⟩ := hcourse.started.all j hsj hjt hstarts
      exact List.mem_map_of_mem hr
    · refine (progress hst ht asks fun j hsj hjt => ?_).starts
      rcases Nat.lt_or_eq_of_le hjt with hjt | rfl
      · exact first j hsj hjt
      · exact fun outcome h => hdelivers ⟨outcome, h⟩
  · intro outcome hdelivers
    obtain ⟨rs, hcourse⟩ := Course.of_delivers hst ht asks hdelivers first
    exact ⟨rs, hcourse.retries ht⟩

end Runs

/-! ### A builder that insists, and one that passes the conflict on -/

namespace LastingContradiction

/-- Key zero records a value for key nine which contradicts the published one. The other keys need
key zero, and return what they are given. -/
def body (_ : Unit) (x : ContextId) : Nat → Body Nat Unit Nat Unit Unit
  | 0 => .perform (.record x 9 2 false) fun _ => .done (.ok 3)
  | _ => .get ⟨0⟩ 0 .done

/-- Key nine has been published before. -/
def world : World Nat Unit Nat Unit Unit where
  caches := #[{ config := { makeBuilder := some fun client => ((), client) }
                store := Table.empty.insert 9 1 }]
  client := ()

/-- A key is requested. -/
def main (k : Nat) : Machine Nat Unit Nat Unit Unit := .start world (.get ⟨0⟩ k .done)

/-- The request of a key. -/
def query (k : Nat) : Query Nat Unit Nat Unit Unit := ⟨⟨0⟩, k, .main, .caller .done, []⟩

theorem main_runs_zero : ∀ i < 22, (((main 0).run body i).step body).isSome = true := by
  decide +kernel

theorem main_runs_five : ∀ i < 28, (((main 5).run body i).step body).isSome = true := by
  decide +kernel

/-- The request of key zero. -/
def direct : Execution (fun m => m = main 0) (Machine.Advances body) :=
  (main 0).runExecution 22 rfl (fun _ _ made => .own made) main_runs_zero

/-- The request of key five. -/
def nested : Execution (fun m => m = main 5) (Machine.Advances body) :=
  (main 5).runExecution 28 rfl (fun _ _ made => .own made) main_runs_five

/-- The machine is about to deliver the outcome of a request for the key. -/
def delivers (k : Nat) (m : Machine Nat Unit Nat Unit Unit) : Bool :=
  match m.focus with
  | .deliver _ l _ _ => l == k
  | _ => false

/-- The machine is about to start a pass for the key. -/
def attempts (k : Nat) (m : Machine Nat Unit Nat Unit Unit) : Bool :=
  match m.focus with
  | .attempt p _ => p.key == k
  | _ => false

/-- A builder is about to return an error. -/
def fails (m : Machine Nat Unit Nat Unit Unit) : Bool :=
  match m.focus with
  | .run (.done (.error _)) => true
  | _ => false

/-- A machine that delivers nothing for the key does not deliver its outcome. -/
theorem not_delivers {k : Nat} {m : Machine Nat Unit Nat Unit Unit} (h : delivers k m = false)
    (r : Outcome Nat) : ¬ (query k).Delivers r m := by
  rintro ⟨-, hfocus⟩
  simp [delivers, hfocus, query] at h

/-- All passes of key zero are lost, and the request ends with a conflict. -/
theorem direct_retries :
    (query 0).Asks (direct.state 0) ∧
      (∀ j, 0 ≤ j → j < 22 → ∀ r, ¬ (query 0).Delivers r (direct.state j)) ∧
      (query 0).Delivers (.returned (.error (.conflict "0"))) (direct.state 22) ∧
      ∃ rs, rs.length = 4 ∧ (∀ r ∈ rs, r.Lost direct (query 0)) ∧
        Retries direct (query 0) 0 22 (.returned (.error (.conflict "0"))) rs := by
  have asks : (query 0).Asks (direct.state 0) := ⟨rfl, .get .done rfl⟩
  have hquiet : ∀ j < 22, delivers 0 (direct.state j) = false := by decide +kernel
  have hreturns : ∀ j < 22, fails (direct.state j) = false := by decide +kernel
  have first : ∀ j, 0 ≤ j → j < 22 → ∀ r, ¬ (query 0).Delivers r (direct.state j) :=
    fun j _ hj => not_delivers (hquiet j hj)
  have hdelivers : (query 0).Delivers (.returned (.error (.conflict "0"))) (direct.state 22) :=
    ⟨rfl, rfl⟩
  have hlength : 22 ≤ direct.length := Nat.le_refl _
  obtain ⟨-, houtcome⟩ := request_retries (Nat.zero_le 22) hlength asks first
  obtain ⟨rs, hretries⟩ := houtcome _ hdelivers
  refine ⟨asks, first, hdelivers, rs, ?_⟩
  rcases (hretries.course.conflict "0").1 rfl with ⟨-, hall, hlost⟩ |
    ⟨r, hlast, i, left, thread, -, hir, hfocus, -⟩
  · exact ⟨hall, hlost, hretries⟩
  · have hstop := (hretries.course.started.between r (List.mem_of_getLast? hlast)).2
    have hfalse := hreturns i (Nat.lt_trans hir hstop)
    simp [fails, hfocus] at hfalse

/-- The request of key five ends with a conflict too, the one that its builder was given for key
zero. It has not lost as many passes as allowed: it has started only one. -/
theorem nested_conflict :
    (query 5).Asks (nested.state 0) ∧
      (∀ j, 0 ≤ j → j < 28 → ∀ r, ¬ (query 5).Delivers r (nested.state j)) ∧
      (query 5).Delivers (.returned (.error (.conflict "0"))) (nested.state 28) ∧
      ¬ ∃ rs, Started nested (query 5) 0 28 rs ∧ rs.length = passLimit ∧
        ∀ r ∈ rs, r.Lost nested (query 5) := by
  have hquiet : ∀ j < 28, delivers 5 (nested.state j) = false := by decide +kernel
  have honce : ∀ j < 28, attempts 5 (nested.state j) = true → j = 1 := by decide +kernel
  refine ⟨⟨rfl, .get .done rfl⟩, fun j _ hj => not_delivers (hquiet j hj), ⟨rfl, rfl⟩, ?_⟩
  rintro ⟨rs, hstarted, hlength, -⟩
  have hstart (n : Nat) (hn : n < rs.length) : rs[n].start = 1 := by
    have hruns := hstarted.runs n hn
    have hstop := (hstarted.between _ (List.getElem_mem hn)).2
    refine honce _ (Nat.lt_trans hruns.nonempty hstop) ?_
    rw [attempts, hruns.opens.attempts.2]
    rfl
  have hzero : 0 < rs.length := by rw [hlength]; decide
  have hone : 1 < rs.length := by rw [hlength]; decide
  have horder := List.pairwise_iff_getElem.1 hstarted.ordered 0 1 hzero hone Nat.zero_lt_one
  have hnonempty := (hstarted.runs 0 hzero).nonempty
  rw [hstart 1 hone] at horder
  rw [hstart 0 hzero] at hnonempty
  omega

end LastingContradiction

/-! ### A pass that is overtaken -/

namespace InsertedMeanwhile

/-- Key zero needs key nine. -/
def body (_ : Unit) (x : ContextId) : Nat → Body Nat Unit Nat Unit Unit
  | 0 => .build x 9 fun _ => .done (.ok 3)
  | _ => .done (.ok 2)

/-- Nothing has been published. -/
def world : World Nat Unit Nat Unit Unit where
  caches := #[{ config := { makeBuilder := some fun client => ((), client) } }]
  client := ()

/-- Key zero is requested. -/
def main : Machine Nat Unit Nat Unit Unit := .start world (.get ⟨0⟩ 0 .done)

/-- The moment at which the builder of key nine is about to return. -/
def caught : Machine Nat Unit Nat Unit Unit := main.run body 5

/-- Another machine inserts a value of key nine. -/
def rival : Machine Nat Unit Nat Unit Unit :=
  .start caught.world (.perform (.insert ⟨0⟩ 9 1) fun _ => .done (.ok 0))

/-- What it leaves. -/
def resumed : Machine Nat Unit Nat Unit Unit :=
  { caught with world := (rival.run body 1).world }

theorem main_runs : ∀ i < 5, ((main.run body i).step body).isSome = true := by
  decide +kernel

theorem resumed_runs : ∀ i < 11, ((resumed.run body i).step body).isSome = true := by
  decide +kernel

/-- As long as a run goes on, each of its steps is one of the machine. -/
theorem step_of_runs {m : Machine Nat Unit Nat Unit Unit} {n : Nat}
    (h : ((m.run body n).step body).isSome = true) :
    (m.run body n).step body = some (m.run body (n + 1)) := by
  obtain ⟨m', hm'⟩ := Option.isSome_iff_exists.1 h
  rw [hm', Machine.run_succ_of_step hm']

/-- The insertion is made in one step. -/
theorem rival_step : rival.step body = some (rival.run body 1) :=
  step_of_runs (n := 0) rfl

/-- The insertion leaves every context alone. -/
theorem rival_apart (x : ContextId) (k : Nat) :
    (rival.run body 1).world.keyState x k = caught.world.keyState x k := by
  obtain ⟨effect, hshift, hpermits, -⟩ := (Transition.of_step rival_step).obeys.shift
  have hdemand : rival.demand = .insert ⟨0⟩ 9 1 := rfl
  rw [hdemand] at hpermits
  cases hshift with
  | quiet states cells => exact states x k
  | newCell states cells => exact states x k
  | _ => simp [Demand.Permits] at hpermits

/-- The request of key zero, with the insertion in between. -/
def session : Execution (fun m => m = main) (Machine.Advances body) where
  length := 17
  state i := if i ≤ 5 then main.run body i else resumed.run body (i - 6)
  starts := rfl
  goes i hi := by
    rcases Nat.lt_trichotomy i 5 with hi5 | rfl | hi5
    · rw [if_pos (Nat.le_of_lt hi5), if_pos (Nat.succ_le_of_lt hi5)]
      exact .own (step_of_runs (main_runs i hi5))
    · exact .other rival (rival.run body 1) rfl rival_step fun x _ k => rival_apart x k
    · have hsucc : i + 1 - 6 = i - 6 + 1 := by omega
      rw [if_neg (by omega), if_neg (by omega), hsucc]
      exact .own (step_of_runs (resumed_runs _ (by omega)))

/-- The request of key zero. -/
def query : Query Nat Unit Nat Unit Unit := ⟨⟨0⟩, 0, .main, .caller .done, []⟩

/-- The machine is about to deliver an outcome. -/
def delivers (m : Machine Nat Unit Nat Unit Unit) : Bool :=
  match m.focus with
  | .deliver .. => true
  | _ => false

/-- Both builders only request keys. -/
theorem body_onlyRequests (b : Unit) (x : ContextId) (k : Nat) :
    (body b x k).OnlyRequests x := by
  unfold body
  split
  · exact .build fun _ => .done _
  · exact .done _

/-- The builders of this pass only request keys. It is lost to a value that another machine inserts
meanwhile, and a second pass is started. -/
theorem session_conflict :
    (∀ b x k, (body b x k).OnlyRequests x) ∧
      query.Asks (session.state 0) ∧
      (∀ j, 0 ≤ j → j < 17 → ∀ r, ¬ query.Delivers r (session.state j)) ∧
      query.Delivers (.returned (.ok 3)) (session.state 17) ∧
      StartsPass session query 1 ∧
      StartsPass session query 10 := by
  have hquiet : ∀ j < 17, delivers (session.state j) = false := by
    decide +kernel
  refine ⟨body_onlyRequests, ⟨rfl, .get .done rfl⟩, fun j _ hj r hdelivers => ?_,
    ⟨rfl, rfl⟩, ⟨⟨4, rfl, rfl⟩, _, _, rfl⟩, ⟨⟨3, rfl, rfl⟩, _, _, rfl⟩⟩
  have hfalse := hquiet j hj
  simp [delivers, hdelivers.2] at hfalse

end InsertedMeanwhile

/-- A conflict does not need lost passes of the request itself: here it is the one that the builder
was given by another request. And builders that only request keys are not safe from a value that
another machine publishes: here they need two passes. -/
theorem conflicts_from_outside :
    ((LastingContradiction.query 5).Asks (LastingContradiction.nested.state 0) ∧
      (∀ j, 0 ≤ j → j < 28 →
        ∀ r, ¬ (LastingContradiction.query 5).Delivers r (LastingContradiction.nested.state j)) ∧
      (LastingContradiction.query 5).Delivers (.returned (.error (.conflict "0")))
        (LastingContradiction.nested.state 28) ∧
      ¬ ∃ rs, Started LastingContradiction.nested (LastingContradiction.query 5) 0 28 rs ∧
        rs.length = passLimit ∧
        ∀ r ∈ rs, r.Lost LastingContradiction.nested (LastingContradiction.query 5)) ∧
    (∀ b x k, (InsertedMeanwhile.body b x k).OnlyRequests x) ∧
      InsertedMeanwhile.query.Asks (InsertedMeanwhile.session.state 0) ∧
      (∀ j, 0 ≤ j → j < 17 →
        ∀ r, ¬ InsertedMeanwhile.query.Delivers r (InsertedMeanwhile.session.state j)) ∧
      InsertedMeanwhile.query.Delivers (.returned (.ok 3)) (InsertedMeanwhile.session.state 17) ∧
      StartsPass InsertedMeanwhile.session InsertedMeanwhile.query 1 ∧
      StartsPass InsertedMeanwhile.session InsertedMeanwhile.query 10 :=
  ⟨LastingContradiction.nested_conflict, InsertedMeanwhile.session_conflict⟩

end DerivationCache
