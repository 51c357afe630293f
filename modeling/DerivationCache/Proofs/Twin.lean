import DerivationCache.Proofs.AddressedRequest
import DerivationCache.Proofs.InFlight
import Mathlib.Data.List.Forall2

/-!
# Machines that work for one cache

A `Recipe` is what a builder does that acts on its running context alone. It is not told which
context that is, so it can name no other one, nor any cache. It may ask for the keys of the context,
record values, look at the entries, clear and commit the context, and raise failures. A recipe that
does the same with other numbers is `Renamed`.

While builders follow recipes, a machine that has taken up an operation on a cache works for this
cache until it is done (`Machine.Twin`). Each of its steps spares everything else, and can be made
in the image of the cache as well, by a machine with other numbers.

## Main results

* `Machine.Twin.echoes`: a step changes only what belongs to the cache, and the machine in the image
  makes the same step.
-/

namespace DerivationCache

variable {K N V σ B : Type}

/-! ### Recipes -/

/-- What a builder does that acts on its running context alone. -/
inductive Recipe (K V : Type) : Type where
  | done (result : Except RequestError V)
  | panic (message : String)
  | halt
  /-- Requests a key within the pass. -/
  | request (key : K) (next : Except RequestError (Option V) → Recipe K V)
  | record (key : K) (value : V) (overwrite : Bool) (next : Except Violation Unit → Recipe K V)
  /-- The value recorded for a key. -/
  | recorded (key : K) (next : Except Violation V → Recipe K V)
  /-- The states of all keys. -/
  | entries (next : Table K (Entry V) → Recipe K V)
  | clear (next : Recipe K V)
  | commit (next : Except Violation Bool → Recipe K V)
  /-- Raises a new failure, which may be returned or not. -/
  | raise (message : String) (next : Failure → Recipe K V)

/-- The states of all keys in a context. -/
def World.entriesOf (w : World K N V σ B) (x : ContextId) : Table K (Entry V) :=
  ((w.context? x).map (·.entries)).getD .empty

namespace Recipe

/-- What is done according to the recipe in a context. -/
def routine (S : Supply σ) (x : ContextId) : Recipe K V → Body K N V σ B
  | done r => .done r
  | panic message => .panic message
  | halt => .halt
  | request k next => .build x k fun answer => (next answer).routine S x
  | record k v overwrite next => .perform (.record x k v overwrite) fun a => (next a).routine S x
  | recorded k next => .perform (.recorded x k) fun a => (next a).routine S x
  | entries next => .perform .observe fun w => (next (w.entriesOf x)).routine S x
  | clear next => .perform (.clear x) fun _ => next.routine S x
  | commit next => .perform (.commit x) fun a => (next a).routine S x
  | raise message next => .perform .observe fun w =>
      .perform (.setClient (S.advance w.client)) fun _ =>
        (next ⟨.counted (S.next w.client), message⟩).routine S x

/-- Builders that follow recipes. -/
def builders (S : Supply σ) (recipe : B → K → Recipe K V) :
    B → ContextId → K → Body K N V σ B :=
  fun b x k => (recipe b k).routine S x

variable [SMul Renaming V]

/-- The second recipe does with renamed answers what the first one does, renamed. -/
inductive Renamed (π : Renaming) : Recipe K V → Recipe K V → Prop
  | done (r : Except RequestError V) : Renamed π (.done r) (.done (π • r))
  | panic (message : String) : Renamed π (.panic message) (.panic message)
  | halt : Renamed π .halt .halt
  | request (k : K) {next next' : Except RequestError (Option V) → Recipe K V}
      (after : ∀ a, Renamed π (next a) (next' (π • a))) :
      Renamed π (.request k next) (.request k next')
  | record (k : K) (v : V) (overwrite : Bool) {next next' : Except Violation Unit → Recipe K V}
      (after : ∀ a, Renamed π (next a) (next' a)) :
      Renamed π (.record k v overwrite next) (.record k (π • v) overwrite next')
  | recorded (k : K) {next next' : Except Violation V → Recipe K V}
      (after : ∀ a, Renamed π (next a) (next' (π • a))) :
      Renamed π (.recorded k next) (.recorded k next')
  | entries {next next' : Table K (Entry V) → Recipe K V}
      (after : ∀ t, Renamed π (next t) (next' (π • t))) :
      Renamed π (.entries next) (.entries next')
  | clear {next next' : Recipe K V} (after : Renamed π next next') :
      Renamed π (.clear next) (.clear next')
  | commit {next next' : Except Violation Bool → Recipe K V}
      (after : ∀ a, Renamed π (next a) (next' a)) : Renamed π (.commit next) (.commit next')
  | raise (message : String) {next next' : Failure → Recipe K V}
      (after : ∀ f, Renamed π (next f) (next' (π • f))) :
      Renamed π (.raise message next) (.raise message next')

end Recipe

/-! ### Twins -/

section Twins

variable [MulAction Renaming V]

/-- A pass is renamed with its cache and its thread. -/
instance : SMul Renaming (Pass K) where
  smul π p := ⟨π • p.cache, p.key, π • p.thread, p.left⟩

/-- The outcome goes to whoever has asked for nothing else. -/
inductive Receiver.Twin (π : Renaming) : Receiver K N V σ B → Receiver K N V σ B → Prop
  | caller : Twin π (.caller fun _ => .halt) (.caller fun _ => .halt)
  | crowd (waiting : List ThreadId) (outcomes : List (Outcome V)) :
      Twin π (.crowd waiting outcomes fun _ => .halt)
        (.crowd (waiting.map (π • ·)) (outcomes.map (π • ·)) fun _ => .halt)

/-- A recipe goes on with the answer, or a pass of the cache does. -/
inductive Asker.Twin (S : Supply σ) (π : Renaming) (c : CacheId) (x : ContextId) :
    Asker K N V σ B → Asker K N V σ B → Prop
  | routine {next next' : Except RequestError (Option V) → Recipe K V}
      (after : ∀ a, (next a).Renamed π (next' (π • a))) :
      Twin S π c x (.routine fun a => (next a).routine S x)
        (.routine fun a => (next' a).routine S (π • x))
  | pass {p : Pass K} {receiver receiver' : Receiver K N V σ B} (cache : p.cache = c)
      (receives : receiver.Twin π receiver') :
      Twin S π c x (.pass p receiver) (.pass (π • p) receiver')

/-- The twin of an asker runs on the twin of its thread. -/
theorem Asker.Twin.thread {S : Supply σ} {π : Renaming} {c : CacheId} {x : ContextId}
    {asker asker' : Asker K N V σ B} (h : asker.Twin S π c x asker') (t : ThreadId) :
    asker'.thread (π • t) = π • asker.thread t := by
  cases h <;> rfl

/-- A call in a context of the cache. -/
inductive Frame.Twin (S : Supply σ) (π : Renaming) (c : CacheId) (w : World K N V σ B) :
    Frame K N V σ B → Frame K N V σ B → Prop
  | intro {x : ContextId} {asker asker' : Asker K N V σ B} (parent : w.parent? x = some c) (k : K)
      (thread : ThreadId) (asks : asker.Twin S π c x asker') :
      Twin S π c w ⟨x, k, thread, asker⟩ ⟨π • x, k, π • thread, asker'⟩

/-- What happens next concerns the cache or a context of it. -/
inductive Focus.Twin (S : Supply σ) (π : Renaming) (c : CacheId) (w w' : World K N V σ B) :
    Focus K N V σ B → Focus K N V σ B → Prop
  | recipe {x : ContextId} {r r' : Recipe K V} (parent : w.parent? x = some c)
      (renamed : r.Renamed π r') : Twin S π c w w' (.run (r.routine S x))
        (.run (r'.routine S (π • x)))
  /-- A failure is being raised: its number is known, and not used up yet. -/
  | raising {x : ContextId} {next next' : Failure → Recipe K V} (parent : w.parent? x = some c)
      (message : String) (after : ∀ f, (next f).Renamed π (next' (π • f))) :
      Twin S π c w w'
        (.run (.perform (.setClient (S.advance w.client)) fun _ =>
          (next ⟨.counted (S.next w.client), message⟩).routine S x))
        (.run (.perform (.setClient (S.advance w'.client)) fun _ =>
          (next' ⟨.counted (S.next w'.client), message⟩).routine S (π • x)))
  | get (k : K) : Twin S π c w w' (.run (.get c k fun _ => .halt))
      (.run (.get (π • c) k fun _ => .halt))
  | race (k : K) (n : ℕ) : Twin S π c w w' (.run (.race c k n fun _ => .halt))
      (.run (.race (π • c) k n fun _ => .halt))
  | stop : Twin S π c w w' (.run .halt) (.run .halt)
  | unwind (message : String) : Twin S π c w w' (.run (.panic message)) (.run (.panic message))
  | ask {x : ContextId} {asker asker' : Asker K N V σ B} (parent : w.parent? x = some c) (k : K)
      (asks : asker.Twin S π c x asker') :
      Twin S π c w w' (.ask x k asker) (.ask (π • x) k asker')
  | reply {x : ContextId} {asker asker' : Asker K N V σ B} (parent : w.parent? x = some c) (k : K)
      (answer : Except RequestError (Option V)) (asks : asker.Twin S π c x asker') :
      Twin S π c w w' (.reply x k answer asker) (.reply (π • x) k (π • answer) asker')
  | attempt {p : Pass K} {receiver receiver' : Receiver K N V σ B} (cache : p.cache = c)
      (receives : receiver.Twin π receiver') :
      Twin S π c w w' (.attempt p receiver) (.attempt (π • p) receiver')
  | deliver {receiver receiver' : Receiver K N V σ B} (k : K) (outcome : Outcome V)
      (receives : receiver.Twin π receiver') :
      Twin S π c w w' (.deliver c k outcome receiver)
        (.deliver (π • c) k (π • outcome) receiver')
  | wake (k : K) (waiting : List ThreadId) (outcomes : List (Outcome V)) :
      Twin S π c w w' (.wake c k waiting outcomes fun _ => .halt)
        (.wake (π • c) k (waiting.map (π • ·)) (outcomes.map (π • ·)) fun _ => .halt)

variable [DecidableEq K]

/-- The second machine does in the image of a cache what the first one does for this cache. -/
structure Machine.Twin (S : Supply σ) (π : Renaming) (c : CacheId) (m m' : Machine K N V σ B) :
    Prop where
  image : m.world.Image π c m'.world
  focus : m.focus.Twin S π c m.world m'.world m'.focus
  stack : List.Forall₂ (Frame.Twin S π c m.world) m.stack m'.stack

omit [MulAction Renaming V] in
/-- Nothing is published while neither the configuration nor the store of a cache is changed. -/
theorem World.Idles.onCache {α : Type} {w w₁ : World K N V σ B} {c : CacheId}
    {f : Cache K V σ B → α × Cache K V σ B} {a : α} (h : w.onCache c f = some (a, w₁))
    (hkeeps : ∀ cache, (f cache).2.config = cache.config ∧ (f cache).2.store = cache.store) :
    w.Idles w₁ := by
  obtain ⟨cache, hcache, h⟩ := Option.map_eq_some_iff.1 h
  obtain ⟨-, rfl⟩ := Prod.mk.inj h
  exact .setCache hcache (hkeeps cache).1 (hkeeps cache).2

/-! ### Steps of a machine and its twin -/

variable {S : Supply σ} {π : Renaming} {c : CacheId} {w w' : World K N V σ B}

/-- Contexts keep their cache, and so do calls in them. -/
theorem Frame.Twin.grows {w₁ : World K N V σ B} {frame frame' : Frame K N V σ B}
    (h : frame.Twin S π c w frame') (hgrows : w.Grows w₁) : frame.Twin S π c w₁ frame' := by
  cases h with
  | intro parent k thread asks => exact .intro (hgrows.parent parent) k thread asks

/-- Calls on a stack keep their caches. -/
theorem Frame.Twin.stack_grows {w₁ : World K N V σ B} {stack stack' : List (Frame K N V σ B)}
    (h : List.Forall₂ (Frame.Twin S π c w) stack stack') (hgrows : w.Grows w₁) :
    List.Forall₂ (Frame.Twin S π c w₁) stack stack' :=
  List.Forall₂.imp (fun _ _ hframe => hframe.grows hgrows) h

omit [DecidableEq K] in
/-- A machine and its twin run on the same thread. -/
theorem Frame.Twin.threadOn {stack stack' : List (Frame K N V σ B)}
    (h : List.Forall₂ (Frame.Twin S π c w) stack stack') (hmain : π • ThreadId.main = .main) :
    threadOn stack' = π • threadOn stack := by
  cases h with
  | nil => exact hmain.symm
  | cons hframe hrest =>
      obtain ⟨parent, k, thread, asks⟩ := hframe
      rfl

namespace Machine

/-- Both machines have gone on alike from two worlds: they are twins again, and as many new things
were made in the one world as in the other. -/
structure Copies (S : Supply σ) (π : Renaming) (c : CacheId) (w w' : World K N V σ B)
    (n n' : Machine K N V σ B) : Prop where
  twin : n.Twin S π c n'
  paced : ∀ kind, n'.world.made S kind + w.made S kind = w'.made S kind + n.world.made S kind

/-- The step to the second machine changes only what belongs to the cache, and the machine in the
image makes the same step, provided that new things are given the right numbers. -/
structure Echoes (S : Supply σ) (π : Renaming) (c : CacheId) (w w' : World K N V σ B)
    (step' : Option (Machine K N V σ B)) (n : Machine K N V σ B) : Prop where
  spares : w.Spares S (some c) n.world
  echo : π.Numbers S w w' n.world → ∃ n', step' = some n' ∧ Copies S π c w w' n n'

/-- What is done alike in between is done alike on the whole. -/
theorem Copies.of_mimics {w₁ w₁' : World K N V σ B} {n n' : Machine K N V σ B}
    (h : World.Mimics S π c w w' w₁ w₁') (h' : Copies S π c w₁ w₁' n n') :
    Copies S π c w w' n n' where
  twin := h'.twin
  paced kind := by
    have h₁ := h.paced kind
    have h₂ := h'.paced kind
    omega

/-- A step is echoed that goes on from worlds to which the same has been done. -/
theorem Echoes.after {w₁ w₁' : World K N V σ B} (hspares : w.Spares S (some c) w₁)
    (hmimics : World.Mimics S π c w w' w₁ w₁') {step' : Option (Machine K N V σ B)}
    {n : Machine K N V σ B} (h : Echoes S π c w₁ w₁' step' n) : Echoes S π c w w' step' n := by
  refine ⟨hspares.trans h.spares, fun hπ => ?_⟩
  obtain ⟨n', hn', hcopies⟩ := h.echo (hπ.rest hspares.made hmimics.paced)
  exact ⟨n', hn', hcopies.of_mimics hmimics⟩

/-- Only the focus changes. -/
theorem Echoes.goto (himage : w.Image π c w') {focus focus' : Focus K N V σ B}
    {stack stack' : List (Frame K N V σ B)} (hfocus : focus.Twin S π c w w' focus')
    (hstack : List.Forall₂ (Frame.Twin S π c w) stack stack') :
    Echoes S π c w w' (some ⟨w', focus', stack'⟩) ⟨w, focus, stack⟩ :=
  ⟨.refl w, fun _ => ⟨_, rfl, ⟨himage, hfocus, hstack⟩, fun _ => rfl⟩⟩

/-- The world changes, and so does its image. -/
theorem Echoes.move {w₁ : World K N V σ B} (hspares : w.Spares S (some c) w₁)
    (hgrows : w.Grows w₁) {step' : Option (Machine K N V σ B)} {focus : Focus K N V σ B}
    {stack stack' : List (Frame K N V σ B)}
    (hstack : List.Forall₂ (Frame.Twin S π c w) stack stack')
    (hstep : π.Numbers S w w' w₁ → ∃ w₁' focus', step' = some ⟨w₁', focus', stack'⟩ ∧
      World.Mimics S π c w w' w₁ w₁' ∧ focus.Twin S π c w₁ w₁' focus') :
    Echoes S π c w w' step' ⟨w₁, focus, stack⟩ := by
  refine ⟨hspares, fun hπ => ?_⟩
  obtain ⟨w₁', focus', rfl, hmimics, hfocus⟩ := hstep hπ
  exact ⟨_, rfl, ⟨hmimics.image, hfocus, Frame.Twin.stack_grows hstack hgrows⟩, hmimics.paced⟩

variable {n : Machine K N V σ B} {stack stack' : List (Frame K N V σ B)}

/-- A claimed request ends in the image as well, whatever came before. -/
theorem settle_echoes (himage : w.Image π c w')
    (hstack : List.Forall₂ (Frame.Twin S π c w) stack stack') {p : Pass K} (hp : p.cache = c)
    {receiver receiver' : Receiver K N V σ B} (hreceives : receiver.Twin π receiver')
    {outcome : Outcome V} {focus : Focus K N V σ B} (focus' : Focus K N V σ B)
    (h : settle ⟨w, focus, stack⟩ p outcome receiver = some n) :
    Echoes S π c w w' (settle ⟨w', focus', stack'⟩ (π • p) (π • outcome) receiver') n := by
  simp only [settle, bind, Option.bind_eq_some_iff] at h
  obtain ⟨⟨⟨⟩, w₁⟩, hrelease, h⟩ := h
  obtain rfl := Option.some.inj h
  subst hp
  have hidles : w.Idles w₁ := .onCache hrelease fun cache => ⟨rfl, rfl⟩
  refine .move (.onCache hrelease fun cache => rfl) hidles.grows hstack fun _ => ?_
  obtain ⟨w₁', hrelease', hmimics⟩ := himage.onCache (S := S)
    (fun cache => ((), cache.release p.key))
    (fun cache => by rw [← Cache.smul_release]) hrelease
  refine ⟨w₁', _, ?_, hmimics, .deliver p.key outcome hreceives⟩
  simp only [settle, bind, Option.bind_eq_some_iff]
  exact ⟨((), w₁'), hrelease', rfl⟩

section Text

variable [ToString K]

/-- A thread reaches for its key in the image as well, whatever came before. -/
theorem claim_echoes (himage : w.Image π c w')
    (hstack : List.Forall₂ (Frame.Twin S π c w) stack stack') {k : K} {thread : ThreadId}
    {receiver receiver' : Receiver K N V σ B} (hreceives : receiver.Twin π receiver')
    {focus : Focus K N V σ B} (focus' : Focus K N V σ B)
    (h : claim ⟨w, focus, stack⟩ c k thread receiver = some n) :
    Echoes S π c w w' (claim ⟨w', focus', stack'⟩ (π • c) k (π • thread) receiver') n := by
  obtain ⟨hidles, -, -⟩ := claim_inv h
  obtain ⟨cache, hcache, hcache'⟩ := himage.cache
  -- The two ways on from the second look at the cache differ in what they leave in it.
  have hmove {after : Cache K V σ B} {focus focus' : Focus K N V σ B}
      (hconfig : after.config = cache.config) (hgrows : w.Grows (w.setCache c after))
      (hfocus : focus.Twin S π c (w.setCache c after) (w'.setCache (π • c) (π • after)) focus') :
      Echoes S π c w w' (some ⟨w'.setCache (π • c) (π • after), focus', stack'⟩)
        ⟨w.setCache c after, focus, stack⟩ :=
    .move (.setCache hcache hconfig) hgrows hstack fun _ => ⟨_, _, rfl,
      ⟨himage.setCache after, fun kind => by rw [World.made_setCache, World.made_setCache]⟩, hfocus⟩
  simp only [claim, hcache, bind, Option.bind_some] at h
  simp only [claim, hcache', bind, Option.bind_some, Cache.claim_smul]
  cases hclaim : cache.claim k thread with
  | held owner => simp [hclaim] at h
  | reentrant =>
      simp only [hclaim] at h
      obtain rfl := Option.some.inj h
      exact .goto himage (.deliver k _ hreceives) hstack
  | claimed cache₁ =>
      obtain ⟨hconfig₁, -⟩ := Cache.claim_keeps hclaim
      have hrecheck' := Cache.recheck_smul (π := π) cache₁ k
      have hclaimed : π • (.claimed cache₁ : ClaimOutcome (Cache K V σ B)) =
          .claimed (π • cache₁) := rfl
      rcases hrecheck : cache₁.recheck k with ⟨_ | r, cache₂⟩
      all_goals
        obtain ⟨hconfig₂, -⟩ := Cache.recheck_inv hrecheck
        simp only [hclaim, hrecheck] at h
        obtain rfl := Option.some.inj h
        rw [hrecheck] at hrecheck'
        simp only [hclaimed, hrecheck']
      · exact hmove (hconfig₂.trans hconfig₁) hidles.grows (.attempt rfl hreceives)
      · have hreleased : (cache₂.release k).config = cache.config := hconfig₂.trans hconfig₁
        have hechoes := hmove hreleased hidles.grows (.deliver k (.returned r) hreceives)
        rw [Cache.smul_release] at hechoes
        exact hechoes

end Text

/-! ### Steps -/

variable [DecidableEq N] [BEq V] [RenamesAlike V] [ToString K] {recipe : B → K → Recipe K V}

omit [MulAction Renaming V] [RenamesAlike V] in
/-- A step only adds to the world. -/
theorem grows_of_step {m : Machine K N V σ B} {body : B → ContextId → K → Body K N V σ B}
    (h : m.step body = some n) : m.world.Grows n.world :=
  (Transition.of_step h).obeys.grows

omit [RenamesAlike V] in
/-- A panic unwinds the calls of the cache. -/
theorem unwind_echoes (himage : w.Image π c w')
    (hstack : List.Forall₂ (Frame.Twin S π c w) stack stack') (message : String)
    (made : (⟨w, .run (.panic message), stack⟩ : Machine K N V σ B).step
      (Recipe.builders S recipe) = some n) :
    Echoes S π c w w' ((⟨w', .run (.panic message), stack'⟩ : Machine K N V σ B).step
      (Recipe.builders S recipe)) n := by
  cases hstack with
  | nil => simp [step, stepRun] at made
  | cons hframe hrest =>
      obtain ⟨parent, k, thread, asks⟩ := hframe
      cases asks with
      | routine after =>
          obtain rfl := Option.some.inj made
          exact .goto himage (.unwind message) hrest
      | pass hcache receives =>
          exact settle_echoes himage hrest hcache receives (.run (.panic message)) made

/-- A recipe returns. -/
theorem return_echoes (himage : w.Image π c w')
    (hstack : List.Forall₂ (Frame.Twin S π c w) stack stack') (r : Except RequestError V)
    (made : (⟨w, .run (.done r), stack⟩ : Machine K N V σ B).step (Recipe.builders S recipe) =
      some n) :
    Echoes S π c w w' ((⟨w', .run (.done (π • r)), stack'⟩ : Machine K N V σ B).step
      (Recipe.builders S recipe)) n := by
  have hgrows := grows_of_step made
  cases hstack with
  | nil => simp [step, stepRun] at made
  | cons hframe hrest =>
      obtain ⟨parent, k, thread, asks⟩ := hframe
      cases r with
      | error e =>
          obtain rfl := Option.some.inj made
          exact .goto himage (.reply parent k (.error e) asks) hrest
      | ok v =>
          simp only [step, stepRun, bind, Option.bind_eq_some_iff] at made
          obtain ⟨⟨answer, w₁⟩, hrecord, made⟩ := made
          obtain ⟨w₁', hrecord', hmimics⟩ := himage.record (S := S) parent hrecord
          have hspares := World.record_spares (S := S) parent hrecord
          cases answer with
          | error e =>
              obtain rfl := Option.some.inj made
              refine .move hspares hgrows hrest fun _ => ⟨w₁', _, ?_, hmimics,
                .reply (hgrows.parent parent) k (.error (.violation e)) asks⟩
              simp only [step, stepRun, smul_requestOk, bind, hrecord', Option.bind_some]
              rfl
          | ok u =>
              obtain rfl := Option.some.inj made
              refine .move hspares hgrows hrest fun _ => ⟨w₁', _, ?_, hmimics,
                .reply (hgrows.parent parent) k (.ok (some v)) asks⟩
              simp only [step, stepRun, smul_requestOk, bind, hrecord', Option.bind_some]
              rfl

/-- A recipe makes a request to the context that it runs in. -/
theorem perform_echoes {x : ContextId} (himage : w.Image π c w')
    (hstack : List.Forall₂ (Frame.Twin S π c w) stack stack') (hplain : w.Plain)
    (hx : w.parent? x = some c) {r : Request K N V σ B} (hr : r.Plain) (ht : w.target r = some c)
    {after : r.Answer → Recipe K V} {after' : (π • r).Answer → Recipe K V}
    (hafter : ∀ a, (after a).Renamed π (after' (r.renameAnswer π a)))
    (made : (⟨w, .run (.perform r fun a => (after a).routine S x), stack⟩ :
      Machine K N V σ B).step (Recipe.builders S recipe) = some n) :
    Echoes S π c w w' ((⟨w', .run (.perform (π • r) fun a => (after' a).routine S (π • x)),
      stack'⟩ : Machine K N V σ B).step (Recipe.builders S recipe)) n := by
  have hgrows := grows_of_step made
  simp only [step, stepRun, bind, Option.bind_eq_some_iff] at made
  obtain ⟨⟨answer, w₁⟩, hanswer, made⟩ := made
  obtain rfl := Option.some.inj made
  refine .move (World.answer_spares hplain hr ht hanswer) hgrows hstack fun hπ => ?_
  obtain ⟨w₁', hanswer', hmimics⟩ := himage.answer hplain ht hanswer hπ
  refine ⟨w₁', _, ?_, hmimics, .recipe (hgrows.parent hx) (hafter answer)⟩
  simp only [step, stepRun, bind, hanswer', Option.bind_some]
  rfl

/-- A recipe makes its next request, or goes on with what it has found out by itself. -/
theorem recipe_echoes {x : ContextId} {r r' : Recipe K V} (himage : w.Image π c w')
    (hstack : List.Forall₂ (Frame.Twin S π c w) stack stack') (hplain : w.Plain)
    (hx : w.parent? x = some c) (hrenamed : r.Renamed π r')
    (made : (⟨w, .run (r.routine S x), stack⟩ : Machine K N V σ B).step
      (Recipe.builders S recipe) = some n) :
    Echoes S π c w w' ((⟨w', .run (r'.routine S (π • x)), stack'⟩ : Machine K N V σ B).step
      (Recipe.builders S recipe)) n := by
  cases hrenamed with
  | done r => exact return_echoes himage hstack r made
  | panic message => exact unwind_echoes himage hstack message made
  | halt => simp [step, stepRun, Recipe.routine] at made
  | request k after =>
      obtain rfl := Option.some.inj made
      exact .goto himage (.ask hx k (.routine after)) hstack
  | record k v overwrite after =>
      exact perform_echoes (r := .record x k v overwrite) himage hstack hplain hx trivial hx after
        made
  | recorded k after =>
      exact perform_echoes (r := .recorded x k) himage hstack hplain hx trivial hx after made
  | entries after =>
      obtain ⟨context, hcontext, hparent⟩ := World.parent?_eq_some hx
      have hentries : w'.entriesOf (π • x) = π • w.entriesOf x := by
        rw [World.entriesOf, World.entriesOf, hcontext,
          himage.contexts x context hcontext hparent]
        rfl
      obtain rfl := Option.some.inj made
      have hechoes : Echoes S π c w w' _ _ :=
        .goto himage (.recipe hx (after (w.entriesOf x))) hstack
      rw [← hentries] at hechoes
      exact hechoes
  | clear after =>
      exact perform_echoes (r := .clear x) himage hstack hplain hx trivial hx (fun _ => after) made
  | commit after =>
      exact perform_echoes (r := .commit x) himage hstack hplain hx trivial hx after made
  | raise message after =>
      obtain rfl := Option.some.inj made
      exact .goto himage (.raising hx message after) hstack

omit [RenamesAlike V] in
/-- The number of a failure that is raised is used up. -/
theorem raising_echoes {x : ContextId} {message : String} {next next' : Failure → Recipe K V}
    (himage : w.Image π c w') (hstack : List.Forall₂ (Frame.Twin S π c w) stack stack')
    (hx : w.parent? x = some c) (after : ∀ f, (next f).Renamed π (next' (π • f)))
    (made : (⟨w, .run (.perform (.setClient (S.advance w.client)) fun _ =>
      (next ⟨.counted (S.next w.client), message⟩).routine S x), stack⟩ :
        Machine K N V σ B).step (Recipe.builders S recipe) = some n) :
    Echoes S π c w w' ((⟨w', .run (.perform (.setClient (S.advance w'.client)) fun _ =>
      (next' ⟨.counted (S.next w'.client), message⟩).routine S (π • x)), stack'⟩ :
        Machine K N V σ B).step (Recipe.builders S recipe)) n := by
  have hgrows := grows_of_step made
  obtain rfl := Option.some.inj made
  have hnext := S.next_advance w.client
  have hnext' := S.next_advance w'.client
  refine .move (.client w (by omega)) hgrows hstack fun hπ => ?_
  have hnumber : π .failure (S.next w.client) = S.next w'.client :=
    hπ .failure 0 (by
      change S.next w.client + 0 < S.next (S.advance w.client)
      omega)
  have hfailure : π • (⟨.counted (S.next w.client), message⟩ : Failure) =
      ⟨.counted (S.next w'.client), message⟩ :=
    congrArg (fun i => (⟨.counted i, message⟩ : Failure)) hnumber
  refine ⟨{ w' with client := S.advance w'.client }, _, rfl,
    ⟨himage.congr rfl rfl rfl rfl rfl rfl, fun kind => ?_⟩, ?_⟩
  · cases kind with
    | failure =>
        change S.next (S.advance w'.client) + S.next w.client =
          S.next w'.client + S.next (S.advance w.client)
        omega
    | _ => rfl
  · rw [← hfailure]
    exact .recipe hx (after _)

omit [RenamesAlike V] in
/-- A key is requested within a pass. -/
theorem ask_echoes {x : ContextId} {k : K} {asker asker' : Asker K N V σ B}
    (himage : w.Image π c w') (hstack : List.Forall₂ (Frame.Twin S π c w) stack stack')
    (hplain : w.Plain) (hrecipe : ∀ b k, (recipe b k).Renamed π (recipe b k))
    (hx : w.parent? x = some c) (hasks : asker.Twin S π c x asker')
    (made : (⟨w, .ask x k asker, stack⟩ : Machine K N V σ B).step (Recipe.builders S recipe) =
      some n) :
    Echoes S π c w w' ((⟨w', .ask (π • x) k asker', stack'⟩ : Machine K N V σ B).step
      (Recipe.builders S recipe)) n := by
  have hgrows := grows_of_step made
  simp only [step, stepAsk, bind, Option.bind_eq_some_iff] at made
  obtain ⟨⟨l, w₁⟩, hlookup, made⟩ := made
  have hspares := World.lookup_spares (S := S) hplain hx hlookup
  cases l with
  | answered answer =>
      obtain rfl := Option.some.inj made
      refine .move hspares hgrows hstack fun hπ => ?_
      obtain ⟨w₁', hlookup', hmimics⟩ := himage.lookup hplain hx hlookup hπ
      refine ⟨w₁', _, ?_, hmimics, .reply (hgrows.parent hx) k answer hasks⟩
      simp only [step, stepAsk, bind, hlookup', Option.bind_some]
      rfl
  | build b =>
      obtain rfl := Option.some.inj made
      have hframe : Frame.Twin S π c w
          ⟨x, k, asker.thread (threadOn stack), asker⟩
          ⟨π • x, k, asker'.thread (threadOn stack'), asker'⟩ := by
        rw [Frame.Twin.threadOn hstack himage.main, hasks.thread]
        exact .intro hx k _ hasks
      refine .move hspares hgrows (.cons hframe hstack) fun hπ => ?_
      obtain ⟨w₁', hlookup', hmimics⟩ := himage.lookup hplain hx hlookup hπ
      refine ⟨w₁', _, ?_, hmimics, .recipe (hgrows.parent hx) (hrecipe b k)⟩
      simp only [step, stepAsk, bind, hlookup', Option.bind_some]
      rfl

/-- A pass has its value, or has failed. -/
theorem pass_echoes {x : ContextId} {k : K} {answer : Except RequestError (Option V)} {p : Pass K}
    {receiver receiver' : Receiver K N V σ B} (himage : w.Image π c w')
    (hstack : List.Forall₂ (Frame.Twin S π c w) stack stack') (hx : w.parent? x = some c)
    (hp : p.cache = c) (hreceives : receiver.Twin π receiver')
    (made : (⟨w, .reply x k answer (.pass p receiver), stack⟩ : Machine K N V σ B).step
      (Recipe.builders S recipe) = some n) :
    Echoes S π c w w' ((⟨w', .reply (π • x) k (π • answer) (.pass (π • p) receiver'), stack'⟩ :
      Machine K N V σ B).step (Recipe.builders S recipe)) n := by
  cases answer with
  | error e =>
      simp only [step, stepReply, bind, Option.bind_eq_some_iff] at made
      obtain ⟨⟨⟨⟩, w₁⟩, hremember, hsettle⟩ := made
      subst hp
      obtain ⟨w₁', hremember', hmimics⟩ := himage.onCache (S := S)
        (fun cache => ((), cache.remember p.key (π • e)))
        (fun cache => by rw [← Cache.smul_remember]) hremember
      have hidles := World.Idles.onCache hremember fun cache => Cache.remember_keeps cache p.key e
      have hsettled := settle_echoes hmimics.image (Frame.Twin.stack_grows hstack hidles.grows) rfl
        hreceives (.reply (π • x) k (.error (π • e)) (.pass (π • p) receiver')) hsettle
      have hspares : w.Spares S (some p.cache) w₁ :=
        .onCache hremember fun cache => (Cache.remember_keeps cache p.key e).1
      have hechoes := hsettled.after hspares hmimics
      simp only [step, stepReply, smul_requestError, bind]
      rw [show w'.onCache (π • p).cache (fun cache => ((), cache.remember (π • p).key (π • e))) =
        some ((), w₁') from hremember', Option.bind_some]
      exact hechoes
  | ok value =>
      cases value with
      | none =>
          exact settle_echoes himage hstack hp hreceives
            (.reply (π • x) k (.ok none) (.pass (π • p) receiver')) made
      | some v =>
          simp only [step, stepReply, bind, Option.bind_eq_some_iff] at made
          obtain ⟨⟨committed, w₁⟩, hcommit, made⟩ := made
          obtain ⟨w₁', hcommit', hmimics⟩ := himage.commit (S := S) hx hcommit
          have hstack₁ := Frame.Twin.stack_grows hstack (World.commit_obeys hcommit).grows
          have hafter {step' : Option (Machine K N V σ B)} (h : Echoes S π c w₁ w₁' step' n) :=
            h.after (World.commit_spares hx hcommit) hmimics
          have hsettles (outcome : Outcome V)
              (h : settle ⟨w₁, .reply x k (.ok (some v)) (.pass p receiver), stack⟩ p outcome
                receiver = some n) :=
            hafter (settle_echoes hmimics.image hstack₁ hp hreceives
              (.reply (π • x) k (.ok (some (π • v))) (.pass (π • p) receiver')) h)
          simp only [smul_requestOk, Option.smul_some, step, stepReply, bind, hcommit',
            Option.bind_some]
          rcases committed with e | _ | _
          · exact hsettles (.returned (.error (.violation e))) made
          · obtain ⟨cache, hcache, hcache'⟩ := hmimics.image.cache
            subst hp
            have hget : (π • cache).store.get? (π • p).key = π • cache.store.get? p.key :=
              Table.get?_smul cache.store p.key
            simp only [hcache, Option.bind_some] at made
            rw [show w₁'.cache? (π • p).cache = some (π • cache) from hcache', Option.bind_some]
            simp only [hget]
            cases hpublished : cache.store.get? p.key with
            | some published =>
                simp only [hpublished] at made
                exact hsettles (.returned (.ok published)) made
            | none =>
                simp only [hpublished] at made
                obtain rfl := Option.some.inj made
                exact hafter (.goto hmimics.image (.attempt rfl hreceives) hstack₁)
          · exact hsettles (.returned (.ok v)) made

omit [RenamesAlike V] in
/-- A claimed request starts a pass, or gives up. -/
theorem attempt_echoes {p : Pass K} {receiver receiver' : Receiver K N V σ B}
    (himage : w.Image π c w') (hstack : List.Forall₂ (Frame.Twin S π c w) stack stack')
    (hplain : w.Plain) (hp : p.cache = c) (hreceives : receiver.Twin π receiver')
    (made : (⟨w, .attempt p receiver, stack⟩ : Machine K N V σ B).step
      (Recipe.builders S recipe) = some n) :
    Echoes S π c w w' ((⟨w', .attempt (π • p) receiver', stack'⟩ : Machine K N V σ B).step
      (Recipe.builders S recipe)) n := by
  subst hp
  rcases p with ⟨c, k, thread, _ | left⟩
  · exact settle_echoes himage hstack rfl hreceives
      (.attempt (π • (⟨c, k, thread, 0⟩ : Pass K)) receiver') made
  · simp only [step, stepAttempt, bind, Option.bind_eq_some_iff] at made
    obtain ⟨⟨⟨⟩, w₁⟩, hcount, ⟨x, w₂⟩, hcreate, made⟩ := made
    obtain rfl := Option.some.inj made
    obtain ⟨w₁', hcount', hmimics⟩ := himage.onCache (S := S)
      (fun cache => ((), cache.count .pass)) (fun cache => rfl) hcount
    have hidles : w.Idles w₁ := .onCache hcount fun cache => ⟨rfl, rfl⟩
    have hspares : w.Spares S (some c) w₁ := .onCache hcount fun cache => rfl
    have hplain₁ := hspares.plain hplain
    obtain ⟨-, context, -, -, hcontext, -, hparent, -, -, -, -, hgrows, -⟩ :=
      World.createContext_inv hcreate
    have hx : w₂.parent? x = some c := by rw [World.parent?_of_context? hcontext, hparent]
    refine .after hspares hmimics (.move (World.createContext_spares hplain₁ hcreate) hgrows
      (Frame.Twin.stack_grows hstack hidles.grows) fun hπ => ?_)
    obtain ⟨w₂', hcreate', hmimics'⟩ := hmimics.image.createContext hplain₁ hcreate hπ
    refine ⟨w₂', _, ?_, hmimics', .ask hx k (.pass rfl hreceives)⟩
    change (w'.onCache (π • c) fun cache => ((), cache.count .pass)).bind _ = _
    rw [hcount', Option.bind_some]
    change (w₁'.createContext (π • c)).bind _ = _
    rw [hcreate', Option.bind_some]
    rfl

omit [RenamesAlike V] in
/-- A thread requests a derived value of the cache. -/
theorem get_echoes {k : K} (himage : w.Image π c w')
    (hstack : List.Forall₂ (Frame.Twin S π c w) stack stack')
    (made : (⟨w, .run (.get c k fun _ => .halt), stack⟩ : Machine K N V σ B).step
      (Recipe.builders S recipe) = some n) :
    Echoes S π c w w' ((⟨w', .run (.get (π • c) k fun _ => .halt), stack'⟩ :
      Machine K N V σ B).step (Recipe.builders S recipe)) n := by
  simp only [step, stepRun, bind, Option.bind_eq_some_iff] at made
  obtain ⟨⟨answer, w₁⟩, hrequest, made⟩ := made
  have hkeeps (cache : Cache K V σ B) := Cache.request_inv (c := cache) (k := k) rfl
  have hidles : w.Idles w₁ := .onCache hrequest fun cache => ⟨(hkeeps cache).1, (hkeeps cache).2.1⟩
  have hspares : w.Spares S (some c) w₁ := .onCache hrequest fun cache => (hkeeps cache).1
  obtain ⟨w₁', hrequest', hmimics⟩ := himage.onCacheWith (S := S) (π • ·) (·.request k)
    (fun cache => Cache.request_smul cache k) hrequest
  have hstack₁ := Frame.Twin.stack_grows hstack hidles.grows
  simp only [step, stepRun, bind, hrequest', Option.bind_some]
  cases answer with
  | some r =>
      obtain rfl := Option.some.inj made
      exact .after hspares hmimics (.goto hmimics.image (.deliver k (.returned r) .caller) hstack₁)
  | none =>
      have hclaimed := claim_echoes hmimics.image hstack₁ .caller
        (.run (.get (π • c) k fun _ => .halt)) made
      rw [Machine.thread_eq, ← Frame.Twin.threadOn hstack himage.main] at hclaimed
      exact hclaimed.after hspares hmimics

omit [RenamesAlike V] in
/-- Several threads request one value of the cache. -/
theorem race_echoes {k : K} {count : ℕ} (himage : w.Image π c w')
    (hstack : List.Forall₂ (Frame.Twin S π c w) stack stack')
    (made : (⟨w, .run (.race c k count fun _ => .halt), stack⟩ : Machine K N V σ B).step
      (Recipe.builders S recipe) = some n) :
    Echoes S π c w w' ((⟨w', .run (.race (π • c) k count fun _ => .halt), stack'⟩ :
      Machine K N V σ B).step (Recipe.builders S recipe)) n := by
  have hgrows := grows_of_step made
  simp only [step, stepRun, bind, Option.bind_eq_some_iff] at made
  obtain ⟨⟨⟨outcomes, waiting⟩, w₁⟩, hrequest, made⟩ := made
  obtain rfl := Option.some.inj made
  have hspares : w.Spares S (some c) w₁ :=
    .onCache hrequest fun cache => (Cache.requestAll_inv k _ cache).1
  have hthreads : w.Spares S (some c) { w₁ with threads := w.threads + count } :=
    .threads hspares (Nat.le_add_right _ _)
  refine .move hthreads hgrows hstack fun hπ => ?_
  have hnumbers : ((List.range count).map fun i => (⟨w'.threads + i⟩ : ThreadId)) =
      ((List.range count).map fun i => (⟨w.threads + i⟩ : ThreadId)).map (π • ·) := by
    rw [List.map_map]
    refine List.map_congr_left fun i hi => (congrArg ThreadId.mk ?_).symm
    exact hπ .thread i (Nat.add_lt_add_left (List.mem_range.1 hi) _)
  obtain ⟨w₁', hrequest', hmimics⟩ := himage.onCacheWith (S := S)
    (fun r => (r.1.map (π • ·), r.2.map (π • ·)))
    (requestAll k ((List.range count).map fun i => (⟨w'.threads + i⟩ : ThreadId)))
    (fun cache => by rw [hnumbers, requestAll_smul]) hrequest
  refine ⟨{ w₁' with threads := w'.threads + count }, _, ?_,
    ⟨hmimics.image.congr rfl rfl rfl rfl rfl rfl, fun kind => ?_⟩, .wake k waiting outcomes⟩
  · simp only [step, stepRun, bind, hrequest', Option.bind_some]
    rfl
  · have hpaced := hmimics.paced kind
    cases kind with
    | thread =>
        change w'.threads + count + w.threads = w'.threads + (w.threads + count)
        omega
    | _ => exact hpaced

/-- A machine that works for a cache makes one more step for it, and so does its twin. -/
theorem Twin.echoes (h : Machine.Twin S π c m m') (hplain : m.world.Plain)
    (hrecipe : ∀ b k, (recipe b k).Renamed π (recipe b k))
    (made : m.step (Recipe.builders S recipe) = some n) :
    Echoes S π c m.world m'.world (m'.step (Recipe.builders S recipe)) n := by
  obtain ⟨w, focus, stack⟩ := m
  obtain ⟨w', focus', stack'⟩ := m'
  obtain ⟨himage, hfocus, hstack⟩ := h
  change focus.Twin S π c w w' focus' at hfocus
  cases hfocus with
  | recipe hx renamed => exact recipe_echoes himage hstack hplain hx renamed made
  | raising hx message after => exact raising_echoes himage hstack hx after made
  | get k => exact get_echoes himage hstack made
  | race k count => exact race_echoes himage hstack made
  | stop => simp [step, stepRun] at made
  | unwind message => exact unwind_echoes himage hstack message made
  | ask hx k asks => exact ask_echoes himage hstack hplain hrecipe hx asks made
  | reply hx k answer asks =>
      cases asks with
      | routine after =>
          obtain rfl := Option.some.inj made
          exact .goto himage (.recipe hx (after answer)) hstack
      | pass hp receives => exact pass_echoes himage hstack hx hp receives made
  | attempt hp receives => exact attempt_echoes himage hstack hplain hp receives made
  | deliver k outcome receives =>
      obtain rfl := Option.some.inj made
      cases receives with
      | caller =>
          cases outcome with
          | returned r => exact .goto himage .stop hstack
          | panicked message => exact .goto himage (.unwind message) hstack
      | crowd waiting outcomes =>
          have hechoes : Echoes S π c w w' _ _ :=
            .goto himage (.wake k waiting (outcomes ++ [outcome])) hstack
          rw [List.map_append] at hechoes
          exact hechoes
  | wake k waiting outcomes =>
      cases waiting with
      | nil =>
          obtain rfl := Option.some.inj made
          exact .goto himage .stop hstack
      | cons thread rest => exact claim_echoes himage hstack (.crowd rest outcomes) _ made

end Machine

end Twins

end DerivationCache
