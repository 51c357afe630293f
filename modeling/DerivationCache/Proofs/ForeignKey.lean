import DerivationCache.Proofs.Registration
import DerivationCache.Proofs.Replay
import DerivationCache.Proofs.WriteOnce

/-!
# Foreign keys

A cache may be told which keys belong to its namespace. All other keys are foreign, and none of them
ever gets in: not into the store, not among the remembered failures or the claims, and not into the
workspace of a pass that commits into the cache. The check is made wherever a key is handed to a
cache or to one of its contexts, and nothing has been touched by then, so a foreign key is refused
without a trace.

Which keys are foreign is fixed when the cache is made. A registry with a rule of its own for the
namespaces hands this rule on to each of its caches, in place of what the template says.

## Main results

* `World.Tracks.obeys`: no step gives a state to a foreign key within a pass.
* `World.Foreign.rejects`: a foreign key is refused wherever it is handed in.
* `foreign_keys_stay_out`: all of this over the runs of any number of machines.
-/

namespace DerivationCache

variable {K N V σ B ι : Type} [DecidableEq K]

namespace World

/-- A key has a place in a cache: it has a value, a remembered failure or a claim, or it is tracked
by a context that commits into the cache. -/
inductive Houses (w : World K N V σ B) (c : CacheId) (k : K) : Prop
  | stored (published : w.stored c k ≠ none)
  | remembered (failed : w.remembered c k ≠ none)
  | inFlight (claimed : w.holder c k ≠ none)
  | tracked (x : ContextId) (parent : w.parent? x = some c) (seen : w.keyState x k ≠ none)

/-- The cache is there, and the key does not belong to its namespace. -/
def Foreign (w : World K N V σ B) (c : CacheId) (k : K) : Prop :=
  ∃ cache, w.cache? c = some cache ∧ cache.owns k = false

/-- Contexts of a cache track keys of its namespace only. -/
def Tracks (w : World K N V σ B) : Prop :=
  ∀ x c k, w.parent? x = some c → w.keyState x k ≠ none → w.Owns c k

variable {w w' : World K N V σ B}

/-- No step gives a state to a foreign key within a pass. -/
theorem Tracks.obeys {d : Demand K V} (h : w.Tracks) (hobeys : w.Obeys w' d) : w'.Tracks := by
  intro x c k hparent hseen
  obtain ⟨s, hs⟩ := Option.ne_none_iff_exists'.1 hseen
  obtain ⟨e, hshift, -, howns⟩ := hobeys.shift
  rcases hshift.state_source hs with hold | hwrites
  · exact hobeys.grows.owns
      (h x c k (hobeys.grows.parent_of_keyState hparent hold) (by simp [hold]))
  · exact hobeys.grows.owns (howns x k s hwrites c hparent)

/-- A world without caches and contexts has nothing to keep track of. -/
theorem Tracks.empty_world (client : σ) : ({ client } : World K N V σ B).Tracks := by
  intro x c k hparent
  simp [parent?, context?] at hparent

omit [DecidableEq K] in
/-- A cache that is put back unchanged leaves the world as it is. -/
theorem setCache_self {c : CacheId} {cache : Cache K V σ B} (h : w.cache? c = some cache) :
    w.setCache c cache = w := by
  have hcaches : w.caches.setIfInBounds c.index cache = w.caches := by
    refine Array.ext_getElem? fun i => ?_
    rw [Array.getElem?_setIfInBounds]
    by_cases hi : c.index = i
    · subst hi
      have hlt := (Array.getElem?_eq_some_iff.1 h).1
      rw [if_pos rfl, if_pos hlt, ← h]
      rfl
    · rw [if_neg hi]
  rw [setCache, hcaches]

end World

/-! ### Refusals -/

section Refusals

variable [DecidableEq N] [BEq V] [ToString K] (body : B → ContextId → K → Body K N V σ B)

/-- One routine goes on with another one. On the way the world stays as it is, and so do the calls
in progress. -/
def Machine.GoesOn (w : World K N V σ B) (stack : List (Frame K N V σ B))
    (b b' : Body K N V σ B) : Prop :=
  ∃ ms, Machine.Path body ⟨w, .run b, stack⟩ ms ⟨w, .run b', stack⟩ ∧
    ∀ o ∈ ms, o.world = w ∧ o.stack = stack

/-- Whoever hands this key to the cache, or to a context of it, goes straight on with an error that
names the key. Several threads that request it at once are all told the same; nothing but their
number has changed. -/
structure World.Rejects (w : World K N V σ B) (c : CacheId) (k : K) : Prop where
  get : ∀ next stack, Machine.GoesOn body w stack (.get c k next)
    (next (.error (.violation (.foreignKey (toString k)))))
  race : ∀ n next stack, ∃ ms, Machine.Path body ⟨w, .run (.race c k n next), stack⟩ ms
      ⟨{ w with threads := w.threads + n },
        .run (next (List.replicate n (.returned (.error (.violation (.foreignKey (toString k))))))),
        stack⟩ ∧
    ∀ o ∈ ms, { o.world with threads := w.threads } = w ∧ o.stack = stack
  published : ∀ next stack, Machine.GoesOn body w stack (.perform (.published c k) next)
    (next (.error (.foreignKey (toString k))))
  insert : ∀ v next stack, Machine.GoesOn body w stack (.perform (.insert c k v) next)
    (next (.error (.foreignKey (toString k))))
  insertOrFail : ∀ v next stack,
    Machine.GoesOn body w stack ((Routine.insertOrFail c k v).bind next)
      (next (.error (.foreignKey (toString k))))
  build : ∀ x, w.parent? x = some c → ∀ next stack, Machine.GoesOn body w stack (.build x k next)
    (next (.error (.violation (.foreignKey (toString k)))))
  record : ∀ x, w.parent? x = some c → ∀ v overwrite next stack,
    Machine.GoesOn body w stack (.perform (.record x k v overwrite) next)
      (next (.error (.foreignKey (toString k))))

variable {w : World K N V σ B} {c : CacheId} {k : K}

/-- A request that is answered at once, and with nothing changed. -/
theorem Machine.GoesOn.of_answer {r : Request K N V σ B} {a : r.Answer}
    (h : w.answer r = some (a, w)) (next : r.Answer → Body K N V σ B)
    (stack : List (Frame K N V σ B)) : Machine.GoesOn body w stack (.perform r next) (next a) := by
  refine ⟨_, .one ?_, fun o ho => ?_⟩
  · simp only [Machine.step, Machine.stepRun, h, bind, Option.bind_some]
    rfl
  · obtain rfl := List.mem_singleton.1 ho
    exact ⟨rfl, rfl⟩

omit [DecidableEq K] [BEq V] in
/-- The check of a foreign key fails with the key in its text. -/
theorem Cache.checkKey_foreign {cache : Cache K V σ B} (hk : cache.owns k = false) :
    cache.checkKey k = .error (.foreignKey (toString k)) := by
  rw [checkKey, hk]
  rfl

omit [BEq V] in
/-- A request for a foreign key is refused before it is counted. -/
theorem Cache.request_foreign {cache : Cache K V σ B} (hk : cache.owns k = false) :
    cache.request k = (some (.error (.violation (.foreignKey (toString k)))), cache) := by
  rw [request, checkKey_foreign hk]

omit [BEq V] in
/-- Every thread is refused, and the cache stays as it is. -/
theorem Machine.requestAll_foreign {cache : Cache K V σ B} (hk : cache.owns k = false)
    (threads : List ThreadId) : Machine.requestAll k threads cache =
      ((List.replicate threads.length
        (.returned (.error (.violation (.foreignKey (toString k))))), []), cache) := by
  induction threads with
  | nil => rfl
  | cons t rest ih => simp [requestAll, Cache.request_foreign hk, ih, List.replicate_succ]

namespace World.Foreign

omit [DecidableEq N] [BEq V] in
/-- Looking a foreign key up is refused, and nothing changes. -/
theorem lookup (h : w.Foreign c k) {x : ContextId} (hx : w.parent? x = some c) :
    w.lookup x k = some (.answered (.error (.violation (.foreignKey (toString k)))), w) := by
  obtain ⟨cache, hcache, hk⟩ := h
  obtain ⟨context, hcontext, hparent⟩ := Option.bind_eq_some_iff.1 hx
  have hpublished : cache.published k = .error (.foreignKey (toString k)) := by
    rw [Cache.published, Cache.checkKey_foreign hk]
    rfl
  simp [World.lookup, hcontext, hparent, hcache, hpublished]

omit [DecidableEq N] in
/-- So is recording it. -/
theorem record (h : w.Foreign c k) {x : ContextId} (hx : w.parent? x = some c) (v : V)
    (overwrite : Bool) :
    w.record x k v overwrite = some (.error (.foreignKey (toString k)), w) := by
  obtain ⟨cache, hcache, hk⟩ := h
  obtain ⟨context, hcontext, hparent⟩ := Option.bind_eq_some_iff.1 hx
  simp [World.record, hcontext, checkKey, hparent, hcache, Cache.checkKey_foreign hk]

/-- So is inserting it into the cache. -/
theorem insert (h : w.Foreign c k) (v : V) :
    w.answer (.insert c k v) = some (.error (.foreignKey (toString k)), w) := by
  obtain ⟨cache, hcache, hk⟩ := h
  simp only [answer, onCache, hcache, Option.map_some, Cache.insert, Cache.checkKey_foreign hk]
  rw [setCache_self hcache]

/-- So is asking whether it is published. -/
theorem published (h : w.Foreign c k) :
    w.answer (.published c k) = some (.error (.foreignKey (toString k)), w) := by
  obtain ⟨cache, hcache, hk⟩ := h
  simp only [answer, hcache, Option.map_some, Cache.published, Cache.checkKey_foreign hk]
  rfl

/-- A request for a derived value is refused before anything is counted. -/
theorem get (h : w.Foreign c k) (next : Except RequestError V → Body K N V σ B)
    (stack : List (Frame K N V σ B)) : Machine.GoesOn body w stack (.get c k next)
      (next (.error (.violation (.foreignKey (toString k))))) := by
  obtain ⟨cache, hcache, hk⟩ := h
  have hpath := Machine.get_answers body hcache (Cache.request_foreign hk) next stack
  rw [setCache_self hcache] at hpath
  refine ⟨_, hpath, fun o ho => ?_⟩
  rcases List.mem_pair.1 ho with rfl | rfl <;> exact ⟨rfl, rfl⟩

/-- So it is on several threads, which are started all the same. -/
theorem race (h : w.Foreign c k) (n : Nat) (next : List (Outcome V) → Body K N V σ B)
    (stack : List (Frame K N V σ B)) : ∃ ms,
    Machine.Path body ⟨w, .run (.race c k n next), stack⟩ ms
      ⟨{ w with threads := w.threads + n },
        .run (next (List.replicate n (.returned (.error (.violation (.foreignKey (toString k))))))),
        stack⟩ ∧
    ∀ o ∈ ms, { o.world with threads := w.threads } = w ∧ o.stack = stack := by
  obtain ⟨cache, hcache, hk⟩ := h
  let threads : List ThreadId := (List.range n).map fun i => ⟨w.threads + i⟩
  have hlength : threads.length = n := by simp [threads]
  have hall := Machine.requestAll_foreign hk threads
  rw [hlength] at hall
  let w' : World K N V σ B := { w with threads := w.threads + n }
  refine ⟨[_, ⟨w', .wake c k [] _ next, stack⟩], .step ?_ (.one rfl), fun o ho => ?_⟩
  · simp only [Machine.step, Machine.stepRun, onCache, hcache, Option.map_some, bind,
      Option.bind_some]
    rw [hall, setCache_self hcache]
    rfl
  · rcases List.mem_pair.1 ho with rfl | rfl <;> exact ⟨rfl, rfl⟩

/-- A request within a pass is refused before the context is looked at. -/
theorem build (h : w.Foreign c k) {x : ContextId} (hx : w.parent? x = some c)
    (next : Except RequestError (Option V) → Body K N V σ B) (stack : List (Frame K N V σ B)) :
    Machine.GoesOn body w stack (.build x k next)
      (next (.error (.violation (.foreignKey (toString k))))) := by
  have hask : Machine.step body ⟨w, .ask x k (.routine next), stack⟩ = _ :=
    (Machine.step_ask_answered body (h.lookup hx)).1
  refine ⟨_, .step (Machine.step_build body w x k next stack) (.step hask
    (.one (Machine.step_reply_routine body w x k _ next stack))), fun o ho => ?_⟩
  simp only [List.mem_cons, List.not_mem_nil, or_false] at ho
  rcases ho with rfl | rfl | rfl <;> exact ⟨rfl, rfl⟩

/-- A foreign key is refused wherever it is handed in. -/
theorem rejects (h : w.Foreign c k) : w.Rejects body c k where
  get := h.get body
  race := h.race body
  published := .of_answer body h.published
  insert v := .of_answer body (h.insert v)
  insertOrFail v _ stack := .of_answer body (h.insert v) _ stack
  build _ hx := h.build body hx
  record _ hx v overwrite := .of_answer body (h.record hx v overwrite)

end World.Foreign

end Refusals

/-! ### Runs -/

section Runs

variable [DecidableEq N] [BEq V] [ToString K] [DecidableEq ι]
  {body : B → ContextId → K → Body K N V σ B} {s s' : Ensemble ι K N V σ B}

/-- Whatever happens next, it is something that was demanded. -/
theorem Ensemble.Next.obeys (h : Next body s s') : ∃ d, s.world.Obeys s'.world d := by
  cases h with
  | step made turn => exact ⟨_, (Transition.of_step made).obeys⟩
  | line ended idle task fresh client turn =>
      exact ⟨.nothing, (World.Idles.setClient s.world client).obeys .nothing⟩

/-- Whatever happens next, a registry stays what it is. -/
theorem Ensemble.Next.registered (h : Next body s s') {r : RegistryId}
    {template : Config K V σ B} {belongs : Option (N → K → Bool)}
    (hr : s.world.Registered r template belongs) : s'.world.Registered r template belongs := by
  cases h with
  | step made turn => exact hr.step made
  | line ended idle task fresh client turn => exact hr.grows rfl (World.Grows.of_eq rfl rfl)

/-- The step that answers a request for a registry makes one. -/
theorem Ensemble.Next.makes_registry (h : Next body s s') {template : Config K V σ B}
    {belongs : Option (N → K → Bool)} {next : RegistryId → Body K N V σ B}
    (hfocus : s.current.focus = .run (.perform (.newRegistry template belongs) next)) :
    ∃ r, (s'.machine s.turn).focus = .run (next r) ∧ s'.world.Registered r template belongs := by
  have hstep : s.current.step body = some (s.current.move
      (s.world.newRegistry template belongs).2 (.run (next ⟨s.world.registries.size⟩))) := by
    rw [Machine.step, hfocus]
    rfl
  cases h with
  | step made turn =>
      obtain rfl := Option.some.inj (hstep.symm.trans made)
      exact ⟨⟨s.world.registries.size⟩, by rw [machine_advance_self]; rfl,
        World.newRegistry_registered rfl⟩
  | line ended idle task fresh client turn => simp [hstep] at ended

variable (e : Execution (Ensemble.Starts (ι := ι)) (Ensemble.Next body))

include e in
/-- In every state of a run, all that a cache and its contexts have room for are keys of the
namespace. -/
theorem housed_owns {i : Nat} (hi : i ≤ e.length) {c : CacheId} {k : K}
    (h : (e.state i).world.Houses c k) : (e.state i).world.Owns c k := by
  have hsound := ensemble_sound e hi
  obtain ⟨hscoped, htracks⟩ : (e.state i).world.Scoped ∧ (e.state i).world.Tracks := by
    refine e.invariant (I := fun s => s.world.Scoped ∧ s.world.Tracks) ?_ ?_ hi
    · rintro s ⟨⟨client, hworld⟩, -⟩
      rw [hworld]
      exact ⟨.empty_world client, .empty_world client⟩
    · rintro s s' hnext ⟨hscoped, htracks⟩
      obtain ⟨d, hobeys⟩ := hnext.obeys
      exact ⟨hobeys.scoped hscoped, htracks.obeys hobeys⟩
  cases h with
  | stored published =>
      obtain ⟨v, hv⟩ := Option.ne_none_iff_exists'.1 published
      exact hscoped.stored hv
  | remembered failed =>
      obtain ⟨f, hf⟩ := Option.ne_none_iff_exists'.1 failed
      exact (hsound.memo c k f hf).2.1
  | inFlight claimed =>
      obtain ⟨t, ht⟩ := Option.ne_none_iff_exists'.1 claimed
      obtain ⟨i, hheld⟩ := (hsound.mirrors.holder c k t).1 ht
      obtain ⟨p, hp, hclaim⟩ := List.mem_map.1 hheld
      obtain ⟨rfl, rfl, rfl⟩ : p.cache = c ∧ p.key = k ∧ p.thread = t := by
        simpa [Pass.claim] using hclaim
      exact hsound.sought i _ _ (Or.inl ⟨p, hp, rfl, rfl⟩)
  | tracked x parent seen => exact htracks x c k parent seen

/-- Over every run of any number of machines, with any builders: in every state, every key that has
a value, a remembered failure or a claim in a cache, or is tracked by a context of the cache,
belongs to the namespace of the cache.

A key that does not belong there is refused wherever it is handed to the cache or to one of its
contexts: the request ends with an error that names the key, no builder or way to make stand-ins is
called, and nothing has changed.

And if a registry is made with a rule for its namespaces, then from then on the keys that belong to
the cache of a namespace are those that the rule says, whatever the template has to say. -/
theorem foreign_keys_stay_out :
    (∀ i ≤ e.length, ∀ c k, (e.state i).world.Houses c k → (e.state i).world.Owns c k) ∧
    (∀ (w : World K N V σ B) c k, w.Foreign c k → w.Rejects body c k) ∧
    ∀ i < e.length, ∀ template belongs next,
      (e.state i).current.focus = .run (.perform (.newRegistry template (some belongs)) next) →
      ∃ r, ((e.state (i + 1)).machine (e.state i).turn).focus = .run (next r) ∧
        ∀ j, i < j → j ≤ e.length → ∀ ns, ∃ c w' cache,
          (e.state j).world.answer (.scopedCache r ns) = some (c, w') ∧
          w'.cache? c = some cache ∧ ∀ k, cache.owns k = belongs ns k := by
  refine ⟨fun i hi c k => housed_owns e hi, fun w c k hk => hk.rejects body,
    fun i hi template belongs next hfocus => ?_⟩
  obtain ⟨r, hnext, hmade⟩ := (e.goes i hi).makes_registry hfocus
  refine ⟨r, hnext, fun j hij hj ns => ?_⟩
  have hlasts : (e.state j).world.Registered r template (some belongs) :=
    e.lasts (P := fun s => s.world.Registered r template (some belongs)) (Nat.succ_le_of_lt hij)
      hmade fun l _ hl hr => (e.goes l (Nat.lt_of_lt_of_le hl hj)).registered hr
  obtain ⟨c, w', hanswer⟩ := hlasts.answers ns
  obtain ⟨cache, hcache, hconfig⟩ := hlasts.cache_of_scopedCache hanswer
  refine ⟨c, w', cache, hanswer, hcache, fun k => ?_⟩
  rw [Cache.owns, hconfig]
  rfl

end Runs

/-! ### A namespace of even keys -/

namespace EvenKeys

/-- The builder of a key requests the next key, which is foreign, and gets over the error. -/
def body (_ : Unit) (x : ContextId) (k : Nat) : Body Nat Bool Nat Unit Unit :=
  .build x (k + 1) fun _ => .done (.ok k)

/-- According to the template, no key belongs to the cache. -/
def template : Config Nat Nat Unit Unit where
  makeBuilder := some fun client => ((), client)
  scope := some fun _ => false

/-- Even keys belong to one namespace, and odd keys to the other one. -/
def belongs (even : Bool) (k : Nat) : Bool := (k % 2 == 0) == even

/-- A key of the namespace is requested, and then a foreign one. -/
def requests (r : RegistryId) : Body Nat Bool Nat Unit Unit :=
  .perform (.scopedCache r true) fun c => .get c 2 fun _ => .get c 3 .done

/-- A registry with a scope is made, and then its requests are run. -/
def main : Ensemble Unit Nat Bool Nat Unit Unit where
  world := { client := () }
  task _ := ⟨.run (.perform (.newRegistry template (some belongs)) requests), []⟩
  turn := ()

/-- No step of the run is missing. -/
theorem main_runs :
    ∀ i < 12, ((main.run body i fun _ => ()).current.step body).isSome = true := by
  decide +kernel

/-- The run of the two requests. -/
def session : Execution (Ensemble.Starts (ι := Unit)) (Ensemble.Next body) :=
  main.runExecution (fun _ => ()) 12 ⟨⟨(), rfl⟩, fun _ => ⟨⟨_, rfl⟩, rfl⟩⟩ main_runs

/-- While `2` is being derived it is a key of the cache. `3` is none, although the builder of `2`
has requested it, and neither is any other odd key. -/
theorem odd_keys_stay_out :
    5 ≤ session.length ∧
    (session.state 5).world.Houses ⟨0⟩ 2 ∧ (session.state 5).world.Owns ⟨0⟩ 2 ∧
    (session.state 12).world.Foreign ⟨0⟩ 3 ∧
    (session.state 12).world.Rejects body ⟨0⟩ 3 ∧
    (session.state 0).current.focus =
      .run (.perform (.newRegistry template (some belongs)) requests) ∧
    ∃ r c w' cache, (session.state 12).world.answer (.scopedCache r true) = some (c, w') ∧
      w'.cache? c = some cache ∧ ∀ k, cache.owns k = belongs true k := by
  obtain ⟨howns, hrejects, hregistry⟩ := foreign_keys_stay_out session
  have hhouses : (session.state 5).world.Houses ⟨0⟩ 2 := by
    refine .inFlight ?_
    decide +kernel
  have hforeign : (session.state 12).world.Foreign ⟨0⟩ 3 := by
    obtain ⟨cache, hcache, hk⟩ := (Option.any_eq_true (fun cache => !cache.owns 3)
      ((session.state 12).world.cache? ⟨0⟩)).1 (by decide +kernel)
    exact ⟨cache, hcache, by simpa using hk⟩
  have hfocus : (session.state 0).current.focus =
      .run (.perform (.newRegistry template (some belongs)) requests) := rfl
  obtain ⟨r, -, hcaches⟩ := hregistry 0 (by decide) _ _ _ hfocus
  obtain ⟨c, w', cache, hanswer⟩ := hcaches 12 (by decide) (by decide) true
  exact ⟨by decide, hhouses, howns 5 (by decide) ⟨0⟩ 2 hhouses, hforeign, hrejects _ _ _ hforeign,
    hfocus, r, c, w', cache, hanswer⟩

end EvenKeys

end DerivationCache
