import DerivationCache.Proofs.BuilderShape
import DerivationCache.Proofs.Counting
import DerivationCache.Proofs.PassBounds

/-!
# Builders that act on their context alone

A builder is local to a context (`Routine.Local`) if it does nothing but request, record and read
keys of this context, and what concerns nobody else. It neither commits the context, nor requests
derived values, nor does it insert or clear anything in a cache. It may panic.

While the pass of such a builder is running (`Machine.Within`), the caches stay as they are but for
their counters, and no request and no pass is counted. So the next pass that ends is this one
(`Machine.Over`), whatever the builder does on the way.

## Main results

* `Machine.step_counts`: which steps count neither a request nor a pass.
* `Machine.Within.step`: what a step within the pass of a local builder comes to.
* `Machine.Within.concludes`: the first pass that ends is the one that is running.
* `Machine.Over.step`: what becomes of the cache when the pass ends.
-/

namespace DerivationCache

variable {K N V σ B : Type}

/-! ### Local builders -/

/-- A request that concerns this context alone, and does not commit it. -/
inductive Request.Within (x : ContextId) : Request K N V σ B → Prop
  | apart {request : Request K N V σ B} (apart : request.Private) : Within x request
  | published (c : CacheId) (k : K) : Within x (.published c k)
  | record (k : K) (v : V) (overwrite : Bool) : Within x (.record x k v overwrite)
  | recorded (k : K) : Within x (.recorded x k)
  | clear : Within x (.clear x)

/-- The routine acts on nothing but this context, which it does not commit. -/
inductive Routine.Local (x : ContextId) : Body K N V σ B → Prop
  | done (result : Except RequestError V) : Local x (.done result)
  | panic (message : String) : Local x (.panic message)
  | halt : Local x .halt
  | perform {request : Request K N V σ B} {next : request.Answer → Body K N V σ B}
      (within : request.Within x) (after : ∀ a, Local x (next a)) : Local x (.perform request next)
  | build {k : K} {next : Except RequestError (Option V) → Body K N V σ B}
      (after : ∀ answer, Local x (next answer)) : Local x (.build x k next)

/-- The routine that asks for a key goes on locally. -/
def Asker.Local (x : ContextId) : Asker K N V σ B → Prop
  | .routine next => ∀ answer, (next answer).Local x
  | .pass _ _ => False

/-- A local builder is at work. -/
def Focus.Local (x : ContextId) : Focus K N V σ B → Prop
  | .run b => b.Local x
  | .ask y _ asker => y = x ∧ asker.Local x
  | .reply y _ _ asker => y = x ∧ asker.Local x
  | _ => False

/-- A call of a local builder, made for another one. -/
def Frame.Local (x : ContextId) (frame : Frame K N V σ B) : Prop :=
  frame.context = x ∧ frame.asker.Local x

/-- A local routine waits for no pass. -/
theorem Asker.Local.passes_eq_nil {x : ContextId} {asker : Asker K N V σ B} (h : asker.Local x) :
    asker.passes = [] := by
  cases asker with
  | routine next => rfl
  | pass p receiver => exact h.elim

/-- A local builder at work is running no pass of its own. -/
theorem Focus.Local.passes_eq_nil {x : ContextId} {focus : Focus K N V σ B} (h : focus.Local x) :
    focus.passes = [] := by
  cases focus with
  | ask y k asker => exact h.2.passes_eq_nil
  | reply y k answer asker => exact h.2.passes_eq_nil
  | attempt p receiver => exact h.elim
  | _ => rfl

/-! ### What is counted -/

namespace World

variable {w w' : World K N V σ B}

/-- Neither requests nor passes are counted. -/
def CountsAlike (w w' : World K N V σ B) : Prop :=
  ∀ c e, e.OfRequests → w'.counted c e = w.counted c e

theorem CountsAlike.refl (w : World K N V σ B) : w.CountsAlike w := fun _ _ _ => rfl

/-- Counts that two changes leave alone. -/
theorem CountsAlike.trans {w₁ : World K N V σ B} (h : w.CountsAlike w₁) (h' : w₁.CountsAlike w') :
    w.CountsAlike w' :=
  fun c e he => (h' c e he).trans (h c e he)

/-- A cache is put back with the same counts of requests and passes. -/
theorem CountsAlike.setCache {c : CacheId} {old cache : Cache K V σ B} (h : w.cache? c = some old)
    (hcounted : ∀ e : Metrics.Event, e.OfRequests → cache.counters.of e = old.counters.of e) :
    w.CountsAlike (w.setCache c cache) := fun d e he => by
  rw [counted_setCache h]
  split
  · rename_i hdc
    rw [hdc, counted_of_cache? h, hcounted e he]
  · rfl

/-- Other events may be counted meanwhile. -/
theorem Counts.alike {incidents : List (CacheId × Metrics.Event)} (h : w.Counts w' incidents)
    (hother : ∀ i ∈ incidents, ¬ i.2.OfRequests) : w.CountsAlike w' := fun c e he => by
  have hnone : incidents.count (c, e) = 0 := List.count_eq_zero.2 fun hi => hother _ hi he
  rw [h c e, hnone]
  exact UInt64.add_zero _

end World

variable [DecidableEq K] [DecidableEq N] [BEq V] [ToString K]

namespace Machine

variable {body : B → ContextId → K → Body K N V σ B} {m m' : Machine K N V σ B}

/-- What a local builder does, and what its pass ends with, counts neither a request nor a pass. -/
theorem step_counts {x : ContextId} (h : m.step body = some m')
    (hfocus : m.focus.Local x ∨ (∃ y k asker, m.focus = .ask y k asker) ∨
      ∃ y k answer asker, m.focus = .reply y k answer asker) : m.world.CountsAlike m'.world := by
  have hnothing (hresets : ∀ c, m.resets c = false) (hquiet : m.incidents body = []) :
      m.world.CountsAlike m'.world :=
    (counts_step h hresets).alike fun i hi => by simp [hquiet] at hi
  obtain ⟨w, focus, stack⟩ := m
  cases focus with
  | ask y k asker =>
      exact (counts_step h fun _ => rfl).alike (incidents_other (Or.inl ⟨y, k, asker, rfl⟩))
  | reply y k answer asker =>
      exact (counts_step h fun _ => rfl).alike
        (incidents_other (Or.inr (Or.inl ⟨y, k, answer, asker, rfl⟩)))
  | run b =>
      have hlocal : b.Local x := by simpa [Focus.Local] using hfocus
      cases hlocal with
      | perform within after =>
          cases within with
          | apart hprivate => cases hprivate <;> exact hnothing (fun _ => rfl) rfl
          | _ => exact hnothing (fun _ => rfl) rfl
      | _ => exact hnothing (fun _ => rfl) rfl
  | attempt p receiver => simp [Focus.Local] at hfocus
  | deliver c k r receiver => simp [Focus.Local] at hfocus
  | wake c k waiting outcomes next => simp [Focus.Local] at hfocus

end Machine

/-! ### A pass while its builder is local -/

namespace World.InPass

variable {w w' : World K N V σ B} {s : PassSetting K V σ B} {entries : Table K (Entry V)}

omit [DecidableEq N] in
/-- A value that is recorded is recorded in the entries. A record that overwrites does nothing else,
unless it is refused. -/
theorem record_inv (h : w.InPass s entries) {k : K} {v : V} {overwrite : Bool}
    {r : Except Violation Unit} (hrecord : w.record s.context k v overwrite = some (r, w')) :
    w'.InPass s (entries.insert k (.resolved v)) ∨
      (w'.InPass s entries ∧ (overwrite = true → ∃ e, r = .error e)) := by
  cases records_of_record hrecord with
  | refused found rejected => exact Or.inr ⟨h, fun _ => ⟨_, rfl⟩⟩
  | unchanged found resolved same => exact Or.inr ⟨h, by simp⟩
  | duplicate found resolved differs => exact Or.inr ⟨h, by simp⟩
  | written found accepted unresolved =>
      obtain rfl := Option.some.inj (h.context.symm.trans found)
      have hset := h.setEntry k (.resolved v)
      exact Or.inl ⟨hset.context, hset.ledger⟩

/-- A request that concerns the context of the pass alone stays within the pass. -/
theorem answer_within (h : w.InPass s entries) {r : Request K N V σ B}
    (hr : r.Within s.context) {a : r.Answer} (hanswer : w.answer r = some (a, w')) :
    ∃ entries', w'.InPass s entries' := by
  cases hr with
  | apart hprivate =>
      obtain ⟨a', w₁, h', hcaches, hcontexts⟩ := w.answer_private hprivate
      obtain ⟨-, rfl⟩ := Prod.mk.inj (Option.some.inj (hanswer.symm.trans h'))
      exact ⟨entries, h.congr hcaches hcontexts⟩
  | published c k =>
      simp only [answer, Option.map_eq_some_iff, Prod.mk.injEq] at hanswer
      obtain ⟨-, -, -, rfl⟩ := hanswer
      exact ⟨entries, h⟩
  | record k v overwrite =>
      rcases h.record_inv hanswer with hset | ⟨hsame, -⟩
      · exact ⟨_, hset⟩
      · exact ⟨entries, hsame⟩
  | recorded k =>
      simp only [answer, Option.map_eq_some_iff, Prod.mk.injEq] at hanswer
      obtain ⟨-, -, -, rfl⟩ := hanswer
      exact ⟨entries, h⟩
  | clear =>
      simp only [answer, h.context, Option.map_some, Option.some.injEq, Prod.mk.injEq] at hanswer
      obtain ⟨-, rfl⟩ := hanswer
      refine ⟨.empty, ?_, h.ledger⟩
      rw [context?_setContext_self h.context]
      rfl

omit [DecidableEq N] [BEq V] in
/-- A request for a key stays within the pass, and calls the builder of the pass if it calls one. -/
theorem lookup_inv (h : w.InPass s entries) {k : K} {l : Lookup V B}
    (hlookup : w.lookup s.context k = some (l, w')) :
    (∃ entries', w'.InPass s entries') ∧ ∀ b, l = .build b → b = s.builder := by
  have hentry (he : w.lookupEntry s.context (s.contextWith entries) k = (l, w')) :
      (∃ entries', w'.InPass s entries') ∧ ∀ b, l = .build b → b = s.builder := by
    rw [lookupEntry, PassSetting.contextWith_entries] at he
    split at he
    · obtain ⟨rfl, rfl⟩ := Prod.mk.inj he
      exact ⟨⟨entries, h⟩, by simp⟩
    · obtain ⟨rfl, rfl⟩ := Prod.mk.inj he
      exact ⟨⟨entries, h⟩, by simp⟩
    · rw [issuePlaceholder, PassSetting.contextWith_placeholders] at he
      cases hmake : s.placeholders with
      | none =>
          simp only [hmake] at he
          obtain ⟨rfl, rfl⟩ := Prod.mk.inj he
          exact ⟨⟨entries, h⟩, by simp⟩
      | some make =>
          simp only [hmake] at he
          obtain ⟨rfl, rfl⟩ := Prod.mk.inj he
          rcases hp : make k w.cells.alloc.1 w.client with ⟨⟨kind, standIn⟩, client⟩
          have hmade : ({ w with cells := w.cells.alloc.2, client } : World K N V σ B).InPass s
              entries := ⟨h.context, h.ledger⟩
          exact ⟨⟨_, (hmade.countOnParent (s.contextWith entries) .placeholderIssued).setEntry k
            (.placeholderIssued ⟨kind, standIn, w.cells.alloc.1⟩)⟩, by simp⟩
    · rw [PassSetting.contextWith_builder, PassSetting.contextWith_setEntry] at he
      obtain ⟨rfl, rfl⟩ := Prod.mk.inj he
      refine ⟨⟨_, (h.setEntry k .pending).countOnParent _ .builderInvocation⟩, fun b hb => ?_⟩
      exact (Lookup.build.inj hb).symm
  simp only [lookup, h.context, bind, Option.bind_some, PassSetting.contextWith_parent,
    Option.bind_eq_some_iff] at hlookup
  obtain ⟨cache, -, hlookup⟩ := hlookup
  split at hlookup
  · obtain ⟨rfl, rfl⟩ := Prod.mk.inj (Option.some.inj hlookup)
    exact ⟨⟨entries, h⟩, by simp⟩
  · obtain ⟨rfl, rfl⟩ := Prod.mk.inj (Option.some.inj hlookup)
    exact ⟨⟨entries, h⟩, by simp⟩
  · exact hentry (Option.some.inj hlookup)

end World.InPass

namespace Machine

/-- A moment within a pass of local builders: the builder of the requested key is running, or those
that it has called. -/
inductive Within (s : PassSetting K V σ B) (k : K) (asker : Asker K N V σ B)
    (stack : List (Frame K N V σ B)) : Machine K N V σ B → Prop
  | intro {w : World K N V σ B} {focus : Focus K N V σ B} {entries : Table K (Entry V)}
      (frames : List (Frame K N V σ B)) (thread : ThreadId) (inPass : w.InPass s entries)
      (focused : focus.Local s.context) (called : ∀ frame ∈ frames, frame.Local s.context) :
      Within s k asker stack ⟨w, focus, frames ++ ⟨s.context, k, thread, asker⟩ :: stack⟩

/-- The pass is over: its key has an answer, which is recorded if it is a value, or its builder has
panicked. -/
inductive Over (s : PassSetting K V σ B) (k : K) (asker : Asker K N V σ B)
    (stack : List (Frame K N V σ B)) : Machine K N V σ B → Prop
  | replied {w : World K N V σ B} {entries : Table K (Entry V)} (answer : Except RequestError V)
      (inPass : w.InPass s entries)
      (recorded : ∀ v, answer = .ok v → entries.get? k = some (.resolved v)) :
      Over s k asker stack ⟨w, .reply s.context k (answer.map some) asker, stack⟩
  | panicked {w : World K N V σ B} {entries : Table K (Entry V)} (thread : ThreadId)
      (message : String) (inPass : w.InPass s entries) :
      Over s k asker stack ⟨w, .run (.panic message), ⟨s.context, k, thread, asker⟩ :: stack⟩

variable {body : B → ContextId → K → Body K N V σ B} {s : PassSetting K V σ B} {k : K}
  {asker : Asker K N V σ B} {stack : List (Frame K N V σ B)} {m m' : Machine K N V σ B}

/-- A builder that returns answers the request it was called for, with a value if it is recorded. -/
theorem step_return {w : World K N V σ B} {entries : Table K (Entry V)} (h : w.InPass s entries)
    {result : Except RequestError V} {frame : Frame K N V σ B} (hframe : frame.context = s.context)
    (made : (⟨w, .run (.done result), frame :: stack⟩ : Machine K N V σ B).step body = some m') :
    ∃ (w' : World K N V σ B) (entries' : Table K (Entry V)) (answer : Except RequestError V),
      m' = ⟨w', .reply s.context frame.key (answer.map some) frame.asker, stack⟩ ∧
      w'.InPass s entries' ∧
      ∀ v, answer = .ok v → entries'.get? frame.key = some (.resolved v) := by
  rw [← hframe]
  cases result with
  | error e =>
      obtain rfl := Option.some.inj made
      exact ⟨w, entries, .error e, rfl, h, by simp⟩
  | ok v =>
      simp only [Machine.step, stepRun, bind, Option.bind_eq_some_iff] at made
      obtain ⟨⟨answer, w'⟩, hrecord, made⟩ := made
      rw [hframe] at hrecord
      have hinv := h.record_inv hrecord
      cases answer with
      | error e =>
          obtain rfl := Option.some.inj made
          have hpass : ∃ entries', w'.InPass s entries' :=
            hinv.elim (fun h' => ⟨_, h'⟩) fun h' => ⟨_, h'.1⟩
          obtain ⟨entries', hpass⟩ := hpass
          exact ⟨w', entries', .error (.violation e), rfl, hpass, by simp⟩
      | ok u =>
          obtain rfl := Option.some.inj made
          rcases hinv with hpass | ⟨-, herror⟩
          · exact ⟨w', _, .ok v, rfl, hpass, by simp⟩
          · obtain ⟨e, he⟩ := herror rfl
            simp at he

/-- A step within a pass of local builders stays within the pass, or the pass is over. -/
theorem Within.step (h : m.Within s k asker stack)
    (hlocal : ∀ l, (body s.builder s.context l).Local s.context) (made : m.step body = some m') :
    m.Over s k asker stack ∨ m'.Within s k asker stack ∨ m'.Over s k asker stack := by
  obtain ⟨frames, thread, inPass, focused, called⟩ := h
  rename_i w focus entries
  cases focus with
  | run b =>
      cases focused with
      | done result =>
          cases frames with
          | nil =>
              obtain ⟨w', entries', answer, rfl, hpass, hrecorded⟩ := step_return inPass rfl made
              exact Or.inr (Or.inr (.replied answer hpass hrecorded))
          | cons frame frames =>
              obtain ⟨hcontext, hasker⟩ := called frame (List.mem_cons_self ..)
              have hrest := fun fr hfr => called fr (List.mem_cons_of_mem frame hfr)
              obtain ⟨w', entries', answer, rfl, hpass, -⟩ := step_return inPass hcontext made
              exact Or.inr (Or.inl (.intro _ thread hpass ⟨rfl, hasker⟩ hrest))
      | panic message =>
          cases frames with
          | nil => exact Or.inl (.panicked thread message inPass)
          | cons frame frames =>
              obtain ⟨-, hasker⟩ := called frame (List.mem_cons_self ..)
              have hrest := fun fr hfr => called fr (List.mem_cons_of_mem frame hfr)
              obtain ⟨y, l, t, _ | ⟨p, receiver⟩⟩ := frame
              · obtain rfl := Option.some.inj made
                exact Or.inr (Or.inl (.intro _ thread inPass (.panic message) hrest))
              · exact hasker.elim
      | halt => simp [Machine.step, stepRun] at made
      | perform within after =>
          simp only [Machine.step, stepRun, bind, Option.bind_eq_some_iff] at made
          obtain ⟨⟨a, w'⟩, hanswer, made⟩ := made
          obtain rfl := Option.some.inj made
          obtain ⟨entries', hpass⟩ := inPass.answer_within within hanswer
          exact Or.inr (Or.inl (.intro _ thread hpass (after a) called))
      | build after =>
          obtain rfl := Option.some.inj made
          exact Or.inr (Or.inl (.intro _ thread inPass ⟨rfl, after⟩ called))
  | ask y l asker' =>
      obtain ⟨rfl, hasker⟩ := focused
      simp only [Machine.step, stepAsk, bind, Option.bind_eq_some_iff] at made
      obtain ⟨⟨found, w'⟩, hlookup, made⟩ := made
      obtain ⟨⟨entries', hpass⟩, hbuilder⟩ := inPass.lookup_inv hlookup
      refine Or.inr (Or.inl ?_)
      cases found with
      | answered answer =>
          obtain rfl := Option.some.inj made
          exact .intro _ thread hpass ⟨rfl, hasker⟩ called
      | build b =>
          obtain rfl := Option.some.inj made
          obtain rfl := hbuilder b rfl
          refine .intro (_ :: frames) thread hpass (hlocal l) fun fr hfr => ?_
          rcases List.mem_cons.1 hfr with rfl | hfr
          · exact ⟨rfl, hasker⟩
          · exact called fr hfr
  | reply y l answer asker' =>
      obtain ⟨rfl, hasker⟩ := focused
      cases asker' with
      | routine next =>
          obtain rfl := Option.some.inj made
          exact Or.inr (Or.inl (.intro _ thread inPass (hasker answer) called))
      | pass p receiver => exact hasker.elim
  | attempt p receiver => exact focused.elim
  | deliver c l r receiver => exact focused.elim
  | wake c l waiting outcomes next => exact focused.elim

/-! ### The end of a pass -/

omit [DecidableEq K] [DecidableEq N] [BEq V] [ToString K] in
/-- While the builders are at work, no outcome is delivered. -/
theorem Within.not_deliver (h : m.Within s k asker stack) (c : CacheId) (l : K) (r : Outcome V)
    (receiver : Receiver K N V σ B) : m.focus ≠ .deliver c l r receiver := by
  obtain ⟨frames, thread, inPass, focused, called⟩ := h
  rintro rfl
  exact focused

omit [DecidableEq N] [BEq V] [ToString K] in
/-- Nor is one while the call for the key is about to end. -/
theorem Over.not_deliver (h : m.Over s k asker stack) (c : CacheId) (l : K) (r : Outcome V)
    (receiver : Receiver K N V σ B) : m.focus ≠ .deliver c l r receiver := by
  cases h <;> simp

omit [DecidableEq K] [DecidableEq N] [BEq V] [ToString K] in
/-- Local builders run no other pass. -/
theorem Within.passes_eq (h : m.Within s k asker stack) :
    m.passes = asker.passes ++ stack.flatMap fun frame => frame.asker.passes := by
  obtain ⟨frames, thread, inPass, focused, called⟩ := h
  rename_i w focus entries
  have hframes : (frames.flatMap fun frame => frame.asker.passes) = [] :=
    List.flatMap_eq_nil_iff.2 fun frame hframe => (called frame hframe).2.passes_eq_nil
  rw [passes, focused.passes_eq_nil, List.flatMap_append, hframes]
  rfl

omit [DecidableEq N] [BEq V] [ToString K] in
/-- A call that is about to end runs no other pass either. -/
theorem Over.passes_eq (h : m.Over s k asker stack) :
    m.passes = asker.passes ++ stack.flatMap fun frame => frame.asker.passes := by
  cases h <;> rfl

omit [DecidableEq K] [DecidableEq N] [BEq V] [ToString K] in
/-- No pass is started by local builders. -/
theorem Within.startsPass (h : m.Within s k asker stack) : m.startsPass = false := by
  obtain ⟨frames, thread, inPass, focused, called⟩ := h
  exact startsPass_of_passes_eq_nil focused.passes_eq_nil

omit [DecidableEq K] [DecidableEq N] [BEq V] [ToString K] in
/-- The builders run on top of the stack. -/
theorem Within.stack_ne (h : m.Within s k asker stack) : m.stack ≠ stack := by
  obtain ⟨frames, thread, inPass, focused, called⟩ := h
  intro hstack
  have hlength := congrArg List.length hstack
  simp at hlength
  omega

/-- The end of a pass counts neither a request nor a pass. -/
theorem Over.counts (h : m.Over s k asker stack) (made : m.step body = some m') :
    m.world.CountsAlike m'.world := by
  cases h with
  | replied answer inPass recorded =>
      exact step_counts (x := s.context) made (Or.inr (Or.inr ⟨_, _, _, _, rfl⟩))
  | panicked thread message inPass =>
      exact step_counts (x := s.context) made (Or.inl (.panic message))

/-- The outcome with which the next step ends a pass. -/
def concludes? (body : B → ContextId → K → Body K N V σ B) (m : Machine K N V σ B) :
    Option (Outcome V) :=
  match m.step body with
  | none => none
  | some m' =>
    match m'.focus with
    | .deliver _ _ outcome _ => if m'.passes.length < m.passes.length then some outcome else none
    | _ => none

/-- The next step delivers the outcome of the innermost pass. -/
theorem concludes?_of_step {p : Pass K} {c : CacheId} {l : K} {outcome : Outcome V}
    {receiver : Receiver K N V σ B} (made : m.step body = some m')
    (hfocus : m'.focus = .deliver c l outcome receiver) (hpasses : m.passes = p :: m'.passes) :
    m.concludes? body = some outcome := by
  rw [concludes?, made]
  simp [hfocus, hpasses]

/-- A step that does not come to a delivery ends no pass. -/
theorem concludes?_eq_none (made : m.step body = some m')
    (hfocus : ∀ c l r receiver, m'.focus ≠ .deliver c l r receiver) : m.concludes? body = none := by
  rw [concludes?, made]
  cases hm' : m'.focus with
  | deliver c l r receiver => exact absurd hm' (hfocus c l r receiver)
  | _ => simp [hm']

/-- No builder is called or left between passes. -/
theorem stack_of_between (h : m.focus.Between) (made : m.step body = some m') :
    m'.stack = m.stack := by
  obtain ⟨w, focus, stack⟩ := m
  cases focus with
  | deliver c l r receiver =>
      obtain rfl := Option.some.inj made
      cases receiver with
      | caller next => cases r <;> rfl
      | crowd waiting outcomes next => rfl
  | wake c l waiting outcomes next =>
      cases waiting with
      | nil =>
          obtain rfl := Option.some.inj made
          rfl
      | cons thread waiting => exact (claim_posts made).1
  | _ => exact h.elim

/-- No pass ends between passes. -/
theorem concludes?_of_between (h : m.focus.Between) : m.concludes? body = none := by
  rw [concludes?]
  cases made : m.step body with
  | none => rfl
  | some m' =>
      have hkept : ¬ m'.passes.length < m.passes.length := by
        rw [passes, passes, h.passes_eq_nil, stack_of_between h made, List.nil_append,
          List.length_append]
        omega
      cases hm' : m'.focus <;> simp [hm', hkept]

/-- The first pass that ends is the one that is running. -/
theorem Within.concludes {ms : List (Machine K N V σ B)} (h : m.Within s k asker stack)
    (hlocal : ∀ l, (body s.builder s.context l).Local s.context) (path : Path body m ms m')
    (hend : (m'.concludes? body).isSome = true) :
    ∃ ms' o, Path body m ms' o ∧ o.Over s k asker stack ∧ m.world.CountsAlike o.world ∧
      ∀ i ∈ ms', i.Within s k asker stack ∧ i.concludes? body = none := by
  induction path with
  | @here m =>
      obtain ⟨m₁, made⟩ : ∃ m₁, m.step body = some m₁ := by
        cases hm : m.step body with
        | none => simp [concludes?, hm] at hend
        | some m₁ => exact ⟨m₁, rfl⟩
      rcases h.step hlocal made with hover | hwithin | hover
      · exact ⟨[], m, .here, hover, .refl _, by simp⟩
      · simp [concludes?_eq_none made hwithin.not_deliver] at hend
      · simp [concludes?_eq_none made hover.not_deliver] at hend
  | @step m m₁ n ms made rest ih =>
      have hcounts : m.world.CountsAlike m₁.world := by
        obtain ⟨frames, thread, inPass, focused, called⟩ := h
        exact step_counts made (Or.inl focused)
      rcases h.step hlocal made with hover | hwithin | hover
      · exact ⟨[], m, .here, hover, .refl _, by simp⟩
      · obtain ⟨ms', o, hpath, hover, hcounts', hms'⟩ := ih hwithin hend
        refine ⟨m :: ms', o, .step made hpath, hover, hcounts.trans hcounts', fun i hi => ?_⟩
        rcases List.mem_cons.1 hi with rfl | hi
        · exact ⟨h, concludes?_eq_none made hwithin.not_deliver⟩
        · exact hms' i hi
      · refine ⟨[m], m₁, .one made, hover, hcounts, fun i hi => ?_⟩
        obtain rfl := List.mem_singleton.1 hi
        exact ⟨h, concludes?_eq_none made hover.not_deliver⟩

/-- The pass has a value that contradicts what others have published meanwhile. -/
def conflicts (m : Machine K N V σ B) : Bool :=
  match m.focus with
  | .reply x _ (.ok (some _)) (.pass _ _) =>
    match m.world.commit x with
    | some (.ok false, _) => true
    | _ => false
  | _ => false

end Machine

/-- What becomes of a cache when a pass for the key ends with this outcome, and does not
conflict. -/
inductive Cache.Concluded (c : Cache K V σ B) (k : K) : Outcome V → Cache K V σ B → Prop
  | panicked (message : String) : Concluded c k (.panicked message) c
  | failed (e : RequestError) : Concluded c k (.returned (.error e)) (c.remember k e)
  | published {c' : Cache K V σ B} {x : Context K V σ B} (v : V) (gains : c.Gains x c')
      (recorded : x.get? k = some v) : Concluded c k (.returned (.ok v)) c'

omit [DecidableEq N] in
/-- A commit is refused, or loses, or is seen in the parent alone. -/
theorem World.InPass.commit_cases {w : World K N V σ B} {s : PassSetting K V σ B}
    {entries : Table K (Entry V)} (h : w.InPass s entries) :
    (∃ e, w.commit s.context = some (.error e, w)) ∨
      (∃ w', w.commit s.context = some (.ok false, w')) ∨
      ∃ w' cache', w.commit s.context = some (.ok true, w') ∧
        s.cache.Gains (s.contextWith entries) cache' ∧
        w'.ledger = Function.update s.ledger s.parent (some cache') := by
  obtain ⟨current, hcurrent, hsame⟩ := h.parent
  rcases World.commit_cases h.context (fun c hc => by
      obtain rfl : s.parent = c := Option.some.inj hc
      exact ⟨current, hcurrent⟩) with ⟨e, -, hcommit⟩ | ⟨-, hparent, -⟩ |
    ⟨c, cache, -, hparent, hcache, hcommit⟩
  · exact Or.inl ⟨e, hcommit⟩
  · simp at hparent
  · obtain rfl : s.parent = c := Option.some.inj hparent
    obtain rfl : current = cache := Option.some.inj (hcurrent.symm.trans hcache)
    cases hpublish : (current.publish (s.contextWith entries).recorded).1 with
    | false => exact Or.inr (Or.inl ⟨_, by rw [hcommit, hpublish]⟩)
    | true =>
        have hgains := Cache.gains_of_publish (Prod.ext hpublish rfl)
        refine Or.inr (Or.inr ⟨_, _, by rw [hcommit, hpublish], ?_,
          by rw [ledger_setCache hcurrent, h.ledger]⟩)
        rw [← hsame]
        exact ⟨hgains.config, hgains.inFlight, hgains.store, hgains.failures⟩

/-- A pass that is over and does not conflict gives its claim back, and delivers its outcome. -/
theorem Machine.Over.step (body : B → ContextId → K → Body K N V σ B) {s : PassSetting K V σ B}
    {p : Pass K} {receiver : Receiver K N V σ B} {stack : List (Frame K N V σ B)}
    {m : Machine K N V σ B} (h : m.Over s p.key (.pass p receiver) stack)
    (hp : p.cache = s.parent) (agrees : m.conflicts = false) :
    ∃ w' cache' r, m.step body = some ⟨w', .deliver p.cache p.key r receiver, stack⟩ ∧
      s.cache.Concluded p.key r cache' ∧
      w'.ledger = Function.update s.ledger s.parent (some (cache'.release p.key)) := by
  have hsettled {w₁ : World K N V σ B} {cache' : Cache K V σ B}
      (hledger : w₁.ledger = Function.update s.ledger s.parent (some cache'))
      (focus : Focus K N V σ B) (r : Outcome V) :
      ∃ w', (⟨w₁, focus, stack⟩ : Machine K N V σ B).settle p r receiver =
          some ⟨w', .deliver p.cache p.key r receiver, stack⟩ ∧
        w'.ledger = Function.update s.ledger s.parent (some (cache'.release p.key)) := by
    have hparent : w₁.ledger p.cache = some cache' := by rw [hledger, hp, Function.update_self]
    obtain ⟨w', hsettle, hw'⟩ :=
      World.InPass.settle hparent r receiver (⟨w₁, focus, stack⟩ : Machine K N V σ B) rfl
    exact ⟨w', hsettle, by rw [hw', hledger, hp, Function.update_idem]⟩
  have hunchanged {w : World K N V σ B} {entries : Table K (Entry V)} (hw : w.InPass s entries) :
      w.ledger = Function.update s.ledger s.parent (some s.cache) := by
    rw [hw.ledger, ← s.ledger_parent, Function.update_eq_self]
  cases h with
  | panicked thread message inPass =>
      obtain ⟨w', hsettle, hw'⟩ := hsettled (hunchanged inPass) (.run (.panic message))
        (.panicked message)
      exact ⟨w', s.cache, _, hsettle, .panicked message, hw'⟩
  | replied answer inPass recorded =>
      rename_i w entries
      cases answer with
      | error e =>
          obtain ⟨w', hstep, hw'⟩ := inPass.step_reply_fails body hp e receiver stack
          exact ⟨w', _, _, hstep, .failed e, hw'⟩
      | ok v =>
          rcases inPass.commit_cases with ⟨e, hcommit⟩ | ⟨w₁, hcommit⟩ |
            ⟨w₁, cache', hcommit, hgains, hledger⟩
          · obtain ⟨w', hsettle, hw'⟩ :=
              hsettled (hunchanged inPass)
                (.reply s.context p.key (.ok (some v)) (.pass p receiver))
                (.returned (.error (.violation e)))
            refine ⟨w', _, _, ?_, .failed (.violation e), hw'⟩
            simpa [Machine.step, Machine.stepReply, Except.map, hcommit] using hsettle
          · simp [Machine.conflicts, Except.map, hcommit] at agrees
          · obtain ⟨w', hsettle, hw'⟩ :=
              hsettled hledger (.reply s.context p.key (.ok (some v)) (.pass p receiver))
                (.returned (.ok v))
            refine ⟨w', cache', _, ?_, .published v hgains ?_, hw'⟩
            · simpa [Machine.step, Machine.stepReply, Except.map, hcommit] using hsettle
            · rw [Context.get?, PassSetting.contextWith_entries, recorded v rfl]
              rfl

end DerivationCache
