import DerivationCache.Proofs.SideBySide

/-!
# A pass that is driven by hand

A request for a derived value and a pass of the key that is driven by hand are begun in one state.
Both of them come to the builder call for the key, go side by side while it is running, and part
when it is over. Then each of them does in a few steps of its own what the other one does. Only a
commit that loses makes a difference: the request tries again.

## Main results

* `PassPair.begins`: both of them come to the builder call for the key.
* `Replied.concludes`, `Unwinding.concludes`: what each of them makes of the end of this call.
* `World.Bills`: what is kept of a request besides.
* `by_hand_compared`: a request and the same pass driven by hand give the same answer, make the same
  calls, and leave worlds that differ by what is counted and remembered for the request.
-/

namespace DerivationCache

variable {K N V σ B : Type}

/-! ### How they begin -/

/-- The builder of a fresh context is the one that is made for it. -/
theorem World.createContext_builder {w w' : World K N V σ B} {c : CacheId} {cache : Cache K V σ B}
    {make : σ → B × σ} {x : ContextId} (hcache : w.cache? c = some cache)
    (hmake : cache.config.makeBuilder = some make) (h : w.createContext c = some (x, w')) :
    ∃ context, w'.context? x = some context ∧ context.builder = some (make w.client).1 := by
  rw [createContext, hcache, Option.map_some, hmake] at h
  obtain rfl := congrArg Prod.fst (Option.some.inj h)
  obtain rfl := congrArg Prod.snd (Option.some.inj h)
  exact ⟨_, (context?_newContext _ _ _).trans (if_pos rfl), rfl⟩

section Passes

variable [DecidableEq K] [DecidableEq N] [BEq V] [ToString K]
  {body : B → ContextId → K → Body K N V σ B} {s : PassPair K N V σ B}
  {m m' : Machine K N V σ B} {w w₁ : World K N V σ B}

namespace PassPair

/-- The request claims its key, and its pass makes a context. -/
theorem requested_path (s : PassPair K N V σ B) (body : B → ContextId → K → Body K N V σ B)
    {cache : Cache K V σ B} (hcache : w.cache? s.cache = some cache)
    (hk : cache.Underived s.key)
    (hcreate : w.createContext s.cache = some (s.context, w₁)) :
    ∃ ms, Machine.Path body ⟨w, .run (.get s.cache s.key s.next), s.below⟩ ms
        ⟨s.engage w₁, .ask s.context s.key s.requested, s.below⟩ ∧ Machine.events ms = [] := by
  let missed (cache : Cache K V σ B) : Cache K V σ B := (cache.count .getCall).count .getMiss
  let claim (cache : Cache K V σ B) : Cache K V σ B := (missed cache).claimed s.key s.thread
  have hclaims : (⟨w, .run (.get s.cache s.key s.next), s.below⟩ : Machine K N V σ B).step body =
      some ⟨w.adjust s.cache claim, .attempt ⟨s.cache, s.key, s.thread, passLimit⟩
        (.caller s.next), s.below⟩ := by
    let m : Machine K N V σ B :=
      ⟨w.setCache s.cache (missed cache), .run (.get s.cache s.key s.next), s.below⟩
    have hmissed : m.world.cache? s.cache = some (missed cache) :=
      World.cache?_setCache_self hcache _
    have hclaim := Machine.claim_underived hmissed (hk.congr rfl) m.thread (.caller s.next)
    have hworld : m.world.setCache s.cache ((missed cache).claimed s.key s.thread) =
        w.adjust s.cache claim := by
      have hm : m.world = w.adjust s.cache missed := World.setCache_apply hcache missed
      rw [hm, World.setCache_eq_adjust, World.adjust_adjust]
      exact (World.setCache_eq_adjust w s.cache _).symm.trans (World.setCache_apply hcache claim)
    rw [← hworld]
    simp only [Machine.step, Machine.stepRun, World.onCache, hcache, Option.map_some,
      Cache.request_missed hk, bind, Option.bind_some]
    exact hclaim
  have hopens : (⟨w.adjust s.cache claim, .attempt ⟨s.cache, s.key, s.thread, passLimit⟩
        (.caller s.next), s.below⟩ : Machine K N V σ B).step body =
      some ⟨s.engage w₁, .ask s.context s.key s.requested, s.below⟩ := by
    have hclaimed : (w.adjust s.cache claim).cache? s.cache = some (claim cache) := by
      rw [World.cache?_adjust, hcache, Option.map_some, if_pos rfl]
    have hengage : (w.adjust s.cache claim).adjust s.cache (·.count .pass) = s.engage w := by
      rw [World.adjust_adjust]
      rfl
    have hcreates : (s.engage w).createContext s.cache = some (s.context, s.engage w₁) := by
      rw [engage, World.createContext_adjust s.hidden, hcreate]
      rfl
    simp only [Machine.step, Machine.stepAttempt, passLimit, World.onCache_apply hclaimed, hengage,
      bind, Option.bind_some, hcreates]
    rfl
  exact ⟨_, .step hclaims (.one hopens), rfl⟩

/-- The other pass makes a context, and requests the key in it. -/
theorem driven_path (s : PassPair K N V σ B) (body : B → ContextId → K → Body K N V σ B)
    {context : Context K V σ B} (hcreate : w.createContext s.cache = some (s.context, w₁))
    (hcontext : w₁.context? s.context = some context) :
    ∃ ms, Machine.Path body ⟨w, .run (Routine.byHand s.cache s.key s.next'), s.below⟩ ms
        ⟨w₁, .ask s.context s.key s.driven, s.below⟩ ∧ Machine.events ms = [] := by
  have hanswer : w.answer (.createContext s.cache none none) = some (s.context, w₁) := by
    have hself : w₁.setContext s.context { context with
        builder := none <|> context.builder
        placeholders := none <|> context.placeholders } = w₁ := World.setContext_self hcontext
    simp only [World.answer, hcreate, bind, Option.bind_some, hcontext]
    exact congrArg (fun w => some (s.context, w)) hself
  have hcreates : (⟨w, .run (Routine.byHand s.cache s.key s.next'), s.below⟩ :
      Machine K N V σ B).step body =
      some ⟨w₁, .run (.build s.context s.key (Routine.handed s.context s.next')), s.below⟩ := by
    simp only [Machine.step, Machine.stepRun, Routine.byHand, hanswer, bind, Option.bind_some]
    rfl
  exact ⟨_, .step hcreates (.one rfl), rfl⟩

/-- Both of them call the builder for the key. -/
theorem call_builder (s : PassPair K N V σ B) (body : B → ContextId → K → Body K N V σ B)
    {w₂ : World K N V σ B}
    (hlookup : w₁.lookup s.context s.key = some (.build s.builder, w₂)) :
    Machine.Alike body ⟨s.engage w₁, .ask s.context s.key s.requested, s.below⟩
      ⟨w₁, .ask s.context s.key s.driven, s.below⟩
      [⟨s.engage w₁, .ask s.context s.key s.requested, s.below⟩]
      [⟨w₁, .ask s.context s.key s.driven, s.below⟩]
      ⟨s.engage w₂, .run (body s.builder s.context s.key), s.frame s.requested :: s.below⟩
      ⟨w₂, .run (body s.builder s.context s.key), s.frame s.driven :: s.below⟩ where
  path := by
    refine .one ?_
    simp only [Machine.step, Machine.stepAsk, s.lookup_engage, hlookup, Option.map_some, bind,
      Option.bind_some]
    rfl
  path' := by
    refine .one ?_
    simp only [Machine.step, Machine.stepAsk, hlookup, bind, Option.bind_some]
    rfl
  events := by
    simp only [Machine.events_cons, Machine.event?, s.lookup_engage, hlookup, Option.map_some]

/-- A request for a key that has to be derived, and the same pass driven by hand, come to the
builder call for the key. -/
theorem begins {c : CacheId} {k : K} {cache : Cache K V σ B} {make : σ → B × σ}
    (hcache : w.cache? c = some cache) (hk : cache.Underived k)
    (hmake : cache.config.makeBuilder = some make)
    (keeps : ∀ x l, (body (make w.client).1 x l).KeepsTo x)
    (next : Except RequestError V → Body K N V σ B)
    (next' : Option (Except RequestError V) → Body K N V σ B) (stack : List (Frame K N V σ B)) :
    ∃ (s : PassPair K N V σ B) (ms ms' : List (Machine K N V σ B)) (m m' : Machine K N V σ B),
      Machine.Alike body ⟨w, .run (.get c k next), stack⟩
        ⟨w, .run (Routine.byHand c k next'), stack⟩ ms ms' m m' ∧ Parallel s m m' ∧
      s.cache = c ∧ s.key = k ∧ s.next = next ∧ s.next' = next' ∧ s.below = stack ∧
      ∀ l, (body s.builder s.context l).KeepsTo s.context := by
  have hledger : w.ledger c = some cache.resetCounters := by
    rw [World.ledger, hcache, Option.map_some]
  obtain ⟨pass, w₁, hcreate, hopened, hpass, hw₁⟩ := World.createContext_opens hledger hmake
  obtain ⟨context, hcontext, hbuilder⟩ := World.createContext_builder hcache hmake hcreate
  have hb : pass.builder = (make w.client).1 := by
    obtain rfl := Option.some.inj (hw₁.context.symm.trans hcontext)
    exact Option.some.inj hbuilder
  let s : PassPair K N V σ B := ⟨c, k, pass.context, pass.builder, next, next', stack⟩
  have howns : pass.cache.owns k = true := by
    rw [hpass]
    exact hk.owns
  have hunpublished : pass.cache.store.get? k = none := by
    rw [hpass]
    exact hk.unpublished
  obtain ⟨w₂, hlookup, hw₂⟩ := hw₁.lookup_unseen howns hunpublished (Table.get?_empty k)
  obtain ⟨ms, hpath, hms⟩ := s.requested_path body hcache hk hcreate
  obtain ⟨ms', hpath', hms'⟩ := s.driven_path body hcreate hcontext
  have hrunning : s.Running w₂ := by
    refine ⟨⟨_, hw₂.context, congrArg some hopened.parent, rfl⟩, ?_, ?_⟩
    · obtain ⟨current, hcurrent, -⟩ := hw₂.parent
      rw [hopened.parent] at hcurrent
      exact ⟨current, hcurrent⟩
    · have hholder : w₂.holder c k = w.holder c k :=
        World.holder_of_account (World.account_of_ledger (hw₂.ledger.trans hopened.ledger) c k)
      rw [hholder, World.holder, World.account_of_cache? hcache]
      exact hk.free
  have hkeeps (l : K) : (body pass.builder pass.context l).KeepsTo pass.context := by
    rw [hb]
    exact keeps pass.context l
  have hcalled := s.call_builder body hlookup
  refine ⟨s, _, _, _, _, ⟨hpath.trans hcalled.path, hpath'.trans hcalled.path', ?_⟩,
    .of_run hrunning (hkeeps k) (List.forall_mem_nil _), rfl, rfl, rfl, rfl, rfl, hkeeps⟩
  rw [Machine.events_append, Machine.events_append, hms, hms', hcalled.events]

end PassPair

/-! ### How they end -/

namespace PassPair

omit [DecidableEq N] [BEq V] [ToString K] in
/-- The request holds the claim, which nobody else does. -/
theorem Running.claimed (running : s.Running w) : ∃ cache, w.cache? s.cache = some cache ∧
    cache.inFlight.get? s.key = none ∧
    (s.engage w).cache? s.cache = some (cache.engaged s.key s.thread) := by
  obtain ⟨cache, hcache⟩ := running.cache
  refine ⟨cache, hcache, ?_, ?_⟩
  · rw [← running.free, World.holder, World.account_of_cache? hcache]
    rfl
  · rw [engage, World.cache?_adjust, hcache, Option.map_some, if_pos rfl]

omit [DecidableEq N] [BEq V] [ToString K] in
/-- The request gives its claim back and hands its outcome to the caller. -/
theorem Running.settle (running : s.Running w) (focus : Focus K N V σ B) (outcome : Outcome V) :
    (⟨s.engage w, focus, s.below⟩ : Machine K N V σ B).settle
        ⟨s.cache, s.key, s.thread, passLimit - 1⟩ outcome (.caller s.next) =
      some ⟨w.adjust s.cache Cache.billed, .deliver s.cache s.key outcome (.caller s.next),
        s.below⟩ := by
  obtain ⟨cache, hcache, hfree, hengaged⟩ := running.claimed
  have hworld : (s.engage w).adjust s.cache (·.release s.key) =
      w.adjust s.cache Cache.billed := by
    rw [engage, World.adjust_adjust]
    refine World.adjust_congr fun current hcurrent => ?_
    obtain rfl := Option.some.inj (hcache.symm.trans hcurrent)
    exact Cache.release_engaged hfree s.thread
  simp only [Machine.settle, World.onCache_apply hengaged, hworld, bind, Option.bind_some]
  rfl

omit [DecidableEq N] in
/-- An error of the pass is remembered before. -/
theorem Running.fail (running : s.Running w) (e : RequestError) :
    (⟨s.engage w, .reply s.context s.key (.error e) s.requested, s.below⟩ :
        Machine K N V σ B).stepReply s.context s.key (.error e) s.requested =
      some ⟨w.adjust s.cache fun cache => cache.charged s.key (.error e),
        .deliver s.cache s.key (.returned (.error e)) (.caller s.next), s.below⟩ := by
  obtain ⟨cache, hcache, hfree, hengaged⟩ := running.claimed
  have hremembered : ((s.engage w).adjust s.cache (·.remember s.key e)).cache? s.cache =
      some ((cache.engaged s.key s.thread).remember s.key e) := by
    rw [World.cache?_adjust, hengaged, Option.map_some, if_pos rfl]
  have hworld : ((s.engage w).adjust s.cache (·.remember s.key e)).adjust s.cache
      (·.release s.key) = w.adjust s.cache fun cache => cache.charged s.key (.error e) := by
    rw [engage, World.adjust_adjust, World.adjust_adjust]
    refine World.adjust_congr fun current hcurrent => ?_
    obtain rfl := Option.some.inj (hcache.symm.trans hcurrent)
    exact Cache.release_remember_engaged hfree s.thread e
  simp only [requested, Machine.stepReply, Machine.settle, World.onCache_apply hengaged,
    World.onCache_apply hremembered, hworld, bind, Option.bind_some]
  rfl

omit [DecidableEq N] in
/-- The context of the passes can be committed. -/
theorem Running.commits (running : s.Running w) : ∃ r w', w.commit s.context = some (r, w') ∧
    (s.engage w).commit s.context = some (r, s.engage w') ∧ s.Running w' := by
  obtain ⟨context, hx, hparent, -⟩ := running.context
  obtain ⟨r, w', hcommit⟩ : ∃ r w', w.commit s.context = some (r, w') := by
    have hcache : ∀ c, context.parent = some c → ∃ cache, w.cache? c = some cache := by
      intro c hc
      obtain rfl := Option.some.inj (hparent.symm.trans hc)
      exact running.cache
    rcases World.commit_cases hx hcache with ⟨e, -, hcommit⟩ | ⟨-, -, hcommit⟩ |
      ⟨c, cache, -, -, -, hcommit⟩ <;> exact ⟨_, _, hcommit⟩
  refine ⟨r, w', hcommit, ?_, ?_⟩
  · rw [engage, World.commit_adjust s.hidden, hcommit]
    rfl
  · exact running.grows (World.commit_obeys hcommit).grows (World.commit_fills hcommit).holder

/-- The request is over when the context was committed, unless the commit lost. -/
theorem Running.step_committed (body : B → ContextId → K → Body K N V σ B) {w' : World K N V σ B}
    (running : s.Running w') {r : Except Violation Bool}
    (hcommit : (s.engage w).commit s.context = some (r, s.engage w')) (hr : r ≠ .ok false) (v : V) :
    (⟨s.engage w, .reply s.context s.key (.ok (some v)) s.requested, s.below⟩ :
        Machine K N V σ B).step body =
      some ⟨w'.adjust s.cache Cache.billed, .deliver s.cache s.key
        (.returned ((r.mapError .violation).map fun _ => v)) (.caller s.next), s.below⟩ := by
  have hsettle (answer : Except RequestError V) :=
    running.settle (.reply s.context s.key (.ok (some v)) s.requested) (.returned answer)
  simp only [Machine.step, requested, Machine.stepReply, hcommit, bind, Option.bind_some]
  rcases r with e | _ | _
  · exact hsettle (.error (.violation e))
  · exact absurd rfl hr
  · exact hsettle (.ok v)

end PassPair

/-- What the two of them make of the end of the builder call: the callers get the same outcome, and
the worlds differ by what is kept of the request. Or the commit loses, and the request starts
over. -/
inductive Concludes (body : B → ContextId → K → Body K N V σ B) (s : PassPair K N V σ B)
    (m m' : Machine K N V σ B) : Prop
  | returned (r : Except RequestError V) {w cache ms ms'}
      (alike : Machine.Alike body m m' ms ms'
        ⟨w.adjust s.cache fun cache => cache.charged s.key r, .run (s.next r), s.below⟩
        ⟨w, .run (s.next' (some r)), s.below⟩)
      (hcache : w.cache? s.cache = some cache)
  | panicked (message : String) {w cache ms ms'}
      (alike : Machine.Alike body m m' ms ms'
        ⟨w.adjust s.cache Cache.billed, .run (.panic message), s.below⟩
        ⟨w, .run (.panic message), s.below⟩)
      (hcache : w.cache? s.cache = some cache)
  | conflicts {n w ms ms'}
      (alike : Machine.Alike body m m' ms ms' n ⟨w, .run (s.next' none), s.below⟩)
      (loses : n.conflicts = true)

/-- A reply leads to the same conclusion on both sides. -/
theorem Replied.concludes (body : B → ContextId → K → Body K N V σ B) (h : Replied s m m') :
    Concludes body s m m' := by
  obtain ⟨running, r⟩ := h
  rename_i w
  cases r with
  | error e =>
      obtain ⟨cache, hcache⟩ := running.cache
      exact .returned (.error e) ⟨.step (running.fail e) (.one rfl), .one rfl, rfl⟩ hcache
  | ok v =>
      obtain ⟨r, w', hcommit, hcommit', hrunning⟩ := running.commits
      obtain ⟨cache, hcache⟩ := hrunning.cache
      have hcommits : (⟨w, .run (Routine.handed s.context s.next' (.ok (some v))), s.below⟩ :
          Machine K N V σ B).step body =
          some ⟨w', .run (Routine.committed v s.next' r), s.below⟩ := by
        simp only [Machine.step, Routine.handed, Machine.stepRun, World.answer, hcommit, bind,
          Option.bind_some]
        rfl
      have hdriven : Machine.Path body
          ⟨w, .reply s.context s.key (.ok (some v)) s.driven, s.below⟩ _ _ :=
        .step rfl (.one hcommits)
      have hstep := hrunning.step_committed body hcommit'
      rcases r with e | _ | _
      · exact .returned (.error (.violation e))
          ⟨.step (hstep (by simp) v) (.one rfl), hdriven, rfl⟩ hcache
      · refine .conflicts ⟨.here, hdriven, rfl⟩ ?_
        simp [Machine.conflicts, Except.map, PassPair.requested, hcommit']
      · exact .returned (.ok v) ⟨.step (hstep (by simp) v) (.one rfl), hdriven, rfl⟩ hcache

/-- So does a panic that unwinds the builder. -/
theorem Unwinding.concludes (body : B → ContextId → K → Body K N V σ B) (h : Unwinding s m m') :
    Concludes body s m m' := by
  obtain ⟨running, message⟩ := h
  obtain ⟨cache, hcache⟩ := running.cache
  have hstep := running.settle (.run (.panic message)) (.panicked message)
  exact .panicked message ⟨.step hstep (.one rfl), .one rfl, rfl⟩ hcache

/-! ### What is kept of the request -/

omit [BEq V] [ToString K] [DecidableEq N] in
/-- A request that has ended has remembered at most a failure of its key. -/
theorem Cache.charged_cases (cache : Cache K V σ B) (k : K) (r : Except RequestError V) :
    cache.charged k r = cache.billed ∨
      ∃ f, cache.charged k r = { cache.billed with failures := cache.failures.insert k f } := by
  cases r with
  | ok v => exact Or.inl rfl
  | error e =>
      cases e with
      | violation v => exact Or.inl rfl
      | conflict key => exact Or.inl rfl
      | failure f =>
          rw [charged, remember]
          split
          · exact Or.inr ⟨f, rfl⟩
          · exact Or.inl rfl

namespace World

/-- What is kept of a request that has to derive, and runs one pass: it is counted, and a failure of
its key is remembered. In all else the worlds are the same. -/
structure Bills (w w' : World K N V σ B) (c : CacheId) (k : K) : Prop where
  stored : ∀ d l, w'.stored d l = w.stored d l
  remembered : ∀ d l, ¬ (d = c ∧ l = k) → w'.remembered d l = w.remembered d l
  holder : ∀ d l, w'.holder d l = w.holder d l
  counted : ∀ d e, w'.counted d e = w.counted d e +
    if d = c ∧ (e = .getCall ∨ e = .getMiss ∨ e = .pass) then 1 else 0
  contexts : w'.contexts = w.contexts
  cells : w'.cells = w.cells
  registries : w'.registries = w.registries
  threads : w'.threads = w.threads
  client : w'.client = w.client

omit [BEq V] [ToString K] [DecidableEq N] in
/-- Putting back a cache that is billed, and at most remembers a failure of its own key. -/
theorem bills_setCache {c : CacheId} {k : K} {cache billed : Cache K V σ B}
    (hcache : w.cache? c = some cache)
    (hbilled : billed = cache.billed ∨
      ∃ f, billed = { cache.billed with failures := cache.failures.insert k f }) :
    w.Bills (w.setCache c billed) c k := by
  have haccount (d : CacheId) (l : K) : ((w.setCache c billed).account d l).value =
        (w.account d l).value ∧
      ((w.setCache c billed).account d l).holder = (w.account d l).holder ∧
      (¬ (d = c ∧ l = k) → ((w.setCache c billed).account d l).failure =
        (w.account d l).failure) := by
    rw [account_setCache hcache]
    split
    · rename_i hdc
      rw [hdc, account_of_cache? hcache]
      rcases hbilled with rfl | ⟨f, rfl⟩
      · exact ⟨rfl, rfl, fun _ => rfl⟩
      · refine ⟨rfl, rfl, fun hne => ?_⟩
        have hlk : k ≠ l := fun h => hne ⟨rfl, h.symm⟩
        simp [Cache.account, hlk]
    · exact ⟨rfl, rfl, fun _ => rfl⟩
  refine ⟨fun d l => ?_, fun d l hne => ?_, fun d l => (haccount d l).2.1, fun d e => ?_, rfl, rfl,
    rfl, rfl, rfl⟩
  · rw [← account_value, ← account_value, (haccount d l).1]
  · rw [← account_failure, ← account_failure, (haccount d l).2.2 hne]
  · have hcounters : billed.counters = cache.billed.counters := by
      rcases hbilled with rfl | ⟨f, rfl⟩ <;> rfl
    rw [counted_setCache hcache, hcounters]
    by_cases hdc : d = c
    · subst hdc
      rw [if_pos rfl, counted_of_cache? hcache]
      cases e <;> simp [Cache.billed, Metrics.Counters.count, Metrics.Counters.of]
    · simp [hdc]

omit [BEq V] [ToString K] [DecidableEq N] in
/-- What a request is charged when its pass has ended, as a bill. -/
theorem bills_charged {c : CacheId} {k : K} {cache : Cache K V σ B}
    (hcache : w.cache? c = some cache) (r : Except RequestError V) :
    w.Bills (w.adjust c fun cache => cache.charged k r) c k := by
  rw [← setCache_apply hcache]
  exact bills_setCache hcache (cache.charged_cases k r)

omit [BEq V] [ToString K] [DecidableEq N] in
/-- What a request is charged when its pass is abandoned, as a bill. -/
theorem bills_billed {c : CacheId} {k : K} {cache : Cache K V σ B}
    (hcache : w.cache? c = some cache) : w.Bills (w.adjust c Cache.billed) c k := by
  rw [← setCache_apply hcache]
  exact bills_setCache hcache (Or.inl rfl)

end World

/-! ### A request and the same pass by hand -/

/-- A request for a key of a cache, and a pass of the key that is driven by hand, are begun in one
state. This is what they come to. -/
inductive Compared (body : B → ContextId → K → Body K N V σ B) (c : CacheId) (k : K)
    (next : Except RequestError V → Body K N V σ B)
    (next' : Option (Except RequestError V) → Body K N V σ B) (stack : List (Frame K N V σ B))
    (m m' : Machine K N V σ B) : Prop
  /-- Their callers get the same answer. -/
  | returned (r : Except RequestError V) {w w' ms ms'}
      (alike : Machine.Alike body m m' ms ms' ⟨w', .run (next r), stack⟩
        ⟨w, .run (next' (some r)), stack⟩)
      (world : w' = w.adjust c fun cache => cache.charged k r) (bills : w.Bills w' c k)
  /-- A panic has reached their callers. -/
  | panicked (message : String) {w w' ms ms'}
      (alike : Machine.Alike body m m' ms ms' ⟨w', .run (.panic message), stack⟩
        ⟨w, .run (.panic message), stack⟩)
      (world : w' = w.adjust c Cache.billed) (bills : w.Bills w' c k)
  /-- The commit is turned down by a conflict. -/
  | conflicts {n w ms ms'} (alike : Machine.Alike body m m' ms ms' n ⟨w, .run (next' none), stack⟩)
      (loses : n.conflicts = true)
  /-- Both of them stop for good within the builder. -/
  | stops {n n' ms ms'} (alike : Machine.Alike body m m' ms ms' n n') (focus : n.focus = n'.focus)
      (world : n.world = n'.world.adjust c fun cache => cache.engaged k m.thread)
      (stays : n.step body = none) (stays' : n'.step body = none)
  /-- The builder calls never come to an end. -/
  | endless (goes : ∀ steps, ∃ ms ms' n n', Machine.Alike body m m' ms ms' n n' ∧
      steps ≤ ms.length ∧ steps ≤ ms'.length ∧ n.focus = n'.focus ∧
      n.world = n'.world.adjust c fun cache => cache.engaged k m.thread)

/-- The end of the builder call is the end of the comparison. -/
theorem Concludes.compared {n n' : Machine K N V σ B} {ms ms' : List (Machine K N V σ B)}
    (h : Concludes body s n n') (halike : Machine.Alike body m m' ms ms' n n') :
    Compared body s.cache s.key s.next s.next' s.below m m' := by
  cases h with
  | returned r alike hcache =>
      exact .returned r (halike.trans alike) rfl (World.bills_charged hcache r)
  | panicked message alike hcache =>
      exact .panicked message (halike.trans alike) rfl (World.bills_billed hcache)
  | conflicts alike loses => exact .conflicts (halike.trans alike) loses

/-- A request for a key that has to be derived is answered as the same pass is when it is driven by
hand, unless the commit of the pass is turned down by a conflict. -/
theorem by_hand_compared {c : CacheId} {k : K} {cache : Cache K V σ B} {make : σ → B × σ}
    (hcache : w.cache? c = some cache) (hk : cache.Underived k)
    (hmake : cache.config.makeBuilder = some make)
    (keeps : ∀ x l, (body (make w.client).1 x l).KeepsTo x)
    (next : Except RequestError V → Body K N V σ B)
    (next' : Option (Except RequestError V) → Body K N V σ B) (stack : List (Frame K N V σ B)) :
    Compared body c k next next' stack ⟨w, .run (.get c k next), stack⟩
      ⟨w, .run (Routine.byHand c k next'), stack⟩ := by
  obtain ⟨s, ms, ms', m, m', halike, hparallel, rfl, rfl, rfl, rfl, rfl, hkeeps⟩ :=
    PassPair.begins hcache hk hmake keeps next next' stack
  by_cases hends : ∃ ns ns' n n', Machine.Alike body m m' ns ns' n n' ∧ Parted body s n n'
  · obtain ⟨ns, ns', n, n', hrun, hparted⟩ := hends
    have hall := halike.trans hrun
    cases hparted with
    | replied replied => exact (replied.concludes body).compared hall
    | unwinds unwinding => exact (unwinding.concludes body).compared hall
    | stuck parallel stays stays' =>
        obtain ⟨running, -, -⟩ := parallel
        exact .stops hall rfl rfl stays stays'
  · refine .endless fun steps => ?_
    obtain ⟨ns, ns', n, n', hrun, hparted | ⟨hn, hns, hns'⟩⟩ := hparallel.run hkeeps steps
    · exact absurd ⟨ns, ns', n, n', hrun, hparted⟩ hends
    · obtain ⟨running, -, -⟩ := hn
      refine ⟨_, _, _, _, halike.trans hrun, ?_, ?_, rfl, rfl⟩
      · rw [List.length_append]
        omega
      · rw [List.length_append]
        omega

end Passes

namespace RequestedAndDriven

/-- Key 8 cannot be derived. The builder of key 7 puts up with that, asks for key 7 itself, and
begins anew with a value of key 9. Other keys are not committed, because key 8 stays pending. -/
def body (_ : Unit) (x : ContextId) : Nat → Body Nat Unit Nat Unit Unit
  | 8 => .done (.error (.failure ⟨.counted 1, "no"⟩))
  | 7 => .build x 8 fun _ => .build x 7 fun _ => .perform (.clear x) fun _ =>
      .perform (.record x 9 90 false) fun _ => .done (.ok 70)
  | k => .build x 8 fun _ => .done (.ok k)

/-- A cache that makes placeholders and remembers failures. -/
def cache : Cache Nat Nat Unit Unit where
  config :=
    { makeBuilder := some fun client => ((), client)
      placeholders := some fun _ _ client => ((.sentinel, 0), client)
      cachesFailures := true }

/-- The world of this cache alone. -/
def world : World Nat Unit Nat Unit Unit where
  caches := #[cache]
  client := ()

/-- A request for the key. -/
def requested (k : Nat) : Machine Nat Unit Nat Unit Unit := ⟨world, .run (.get ⟨0⟩ k .done), []⟩

/-- The pass of the key, driven by hand. A conflict leaves nothing to return. -/
def driven (k : Nat) : Machine Nat Unit Nat Unit Unit :=
  ⟨world, .run (.byHand ⟨0⟩ k fun outcome => outcome.elim .halt .done), []⟩

/-- Each builder acts on its own context only. -/
theorem keepsTo (x : ContextId) (k : Nat) : (body () x k).KeepsTo x := by
  unfold body
  split
  · exact .done _
  · refine .build fun _ => .build fun _ => ?_
    refine .perform (.inl .clear) (by simp) fun _ => ?_
    exact .perform (.inl (.record 9 90 false)) (by simp) fun _ => .done _
  · exact .build fun _ => .done _

/-- A value, a failure and a refused commit, by a request and by hand. -/
theorem runs_compared :
    world.cache? ⟨0⟩ = some cache ∧ (∀ k, cache.Underived k) ∧
      (∀ x l, (body () x l).KeepsTo x) ∧
      (∀ k, Compared body ⟨0⟩ k .done (fun outcome => outcome.elim .halt .done) []
        (requested k) (driven k)) ∧
      ((Machine.run body 40 (requested 7)).status body = .returned (.ok 70) ∧
        (Machine.run body 40 (driven 7)).status body = .returned (.ok 70)) ∧
      ((Machine.run body 40 (requested 8)).world.remembered ⟨0⟩ 8 =
          some ⟨.counted 1, "no"⟩ ∧
        (Machine.run body 40 (driven 8)).world.remembered ⟨0⟩ 8 = none) ∧
      ((Machine.run body 40 (requested 5)).status body =
          .returned (.error (.violation (.pendingAtCommit "8"))) ∧
        (Machine.run body 40 (driven 5)).status body =
          .returned (.error (.violation (.pendingAtCommit "8")))) := by
  have hcache : world.cache? ⟨0⟩ = some cache := rfl
  have hk (k : Nat) : cache.Underived k := ⟨rfl, rfl, fun _ => rfl, rfl, rfl⟩
  exact ⟨hcache, hk, keepsTo, fun k => by_hand_compared hcache (hk k) rfl keepsTo _ _ [],
    ⟨rfl, rfl⟩, ⟨rfl, rfl⟩, rfl, rfl⟩

end RequestedAndDriven

end DerivationCache
