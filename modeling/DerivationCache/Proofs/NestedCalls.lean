import DerivationCache.Proofs.InFlight
import Mathlib.Data.Finset.Prod

/-!
# Nested builder calls

A builder may come back to the engine by two doors: it may request keys within the pass that it
was called for, and it may request derived values of the cache. Each door has a guard of its own.
A context knows the keys that were requested within its pass, so it does not call a builder twice
for one key. The cache knows which keys are being derived, so no request derives a key that another
one is deriving further down the stack. But a request that starts a pass starts it in a context
that has seen nothing yet, and calls builders anew for keys that are pending in other contexts.

As long as the builders request keys of one finite set (`Routine.Confined`), this can happen once
for every key of the set, and within each of the contexts every key is derived once. So the number
of builder calls in progress is at most the square of the number of keys.

## Main results

* `Machine.Confined.step`: what stays true while confined builders run.
* `Machine.Confined.length_held_le`: at most one request in progress for every key.
* `Machine.Confined.length_stack_le`: the number of builder calls in progress.
-/

namespace DerivationCache

variable {K N V σ B : Type} [DecidableEq K] [DecidableEq N] [BEq V] [ToString K]

/-! ### Confined routines -/

section Shapes

variable (w₀ : World K N V σ B) (c : CacheId) (keys : Finset K)

/-- The routine requests keys of this set only, from the cache or within its own context, and goes
on so whatever it is answered. It clears no context, does not stop the run and starts no threads.
All else that it requests names what there was in the world `w₀`, or its context, which belongs to
the cache, so it is answered. -/
inductive Routine.Confined (x : Option ContextId) : Body K N V σ B → Prop
  | done (result : Except RequestError V) : Confined x (.done result)
  | panic (message : String) : Confined x (.panic message)
  | perform {request : Request K N V σ B} {next : request.Answer → Body K N V σ B}
      (keeps : ∀ y, request ≠ .clear y)
      (answers : ∀ w, w₀.Grows w → (∀ y, x = some y → w.parent? y = some c) →
        ∃ a w', w.answer request = some (a, w'))
      (after : ∀ a, Confined x (next a)) : Confined x (.perform request next)
  | build {y : ContextId} {k : K} {next : Except RequestError (Option V) → Body K N V σ B}
      (own : x = some y) (mem : k ∈ keys) (after : ∀ answer, Confined x (next answer)) :
      Confined x (.build y k next)
  | get {k : K} {next : Except RequestError V → Body K N V σ B} (mem : k ∈ keys)
      (after : ∀ r, Confined x (next r)) : Confined x (.get c k next)

/-- The routine that gets the outcome goes on confined. -/
def Receiver.Confined (x : Option ContextId) : Receiver K N V σ B → Prop
  | .caller next => ∀ r, (next r).Confined w₀ c keys x
  | .crowd .. => False

/-- A key is requested within a context by the routine that was called for the context, which goes
on confined, or by a pass. -/
def Asker.Confined (x : Option ContextId) (y : ContextId) : Asker K N V σ B → Prop
  | .routine next => x = some y ∧ ∀ answer, (next answer).Confined w₀ c keys x
  | .pass _ receiver => receiver.Confined w₀ c keys x

/-- What happens next is what a confined routine does. -/
def Focus.Confined (x : Option ContextId) : Focus K N V σ B → Prop
  | .run b => b.Confined w₀ c keys x
  | .ask y k asker => k ∈ keys ∧ asker.Confined w₀ c keys x y
  | .reply y _ _ asker => asker.Confined w₀ c keys x y
  | .attempt _ receiver => receiver.Confined w₀ c keys x
  | .deliver _ _ _ receiver => receiver.Confined w₀ c keys x
  | .wake .. => False

/-- The context that the innermost builder was called for. -/
def contextOn : List (Frame K N V σ B) → Option ContextId
  | [] => none
  | frame :: _ => some frame.context

/-- Every builder call in progress was made for a key of the set, and whoever asked for the key goes
on confined to the context below. -/
def StackConfined : List (Frame K N V σ B) → Prop
  | [] => True
  | frame :: rest => frame.key ∈ keys ∧
      frame.asker.Confined w₀ c keys (contextOn rest) frame.context ∧ StackConfined rest

/-- The contexts that are being worked in. -/
def Focus.contexts : Focus K N V σ B → List ContextId
  | .ask x _ _ => [x]
  | .reply x _ _ _ => [x]
  | _ => []

/-- What stays true while confined builders run: the cache has on record what the machine holds, and
all claims are claims of these keys. The contexts in use belong to the cache. They have seen every
key that a builder was called for in them, so no builder was called twice for a key of a context. -/
structure Machine.Confined (m : Machine K N V σ B) : Prop where
  grows : w₀.Grows m.world
  mirrors : m.world.Mirrors fun _ : Unit => m.held
  aligned : Aligned m.stack
  claims : ∀ claim ∈ m.held, claim.1 = c ∧ claim.2.1 ∈ keys ∧ claim.2.2 = .main
  focus : m.focus.Confined w₀ c keys (contextOn m.stack)
  stack : StackConfined w₀ c keys m.stack
  attached : ∀ x ∈ m.focus.contexts ++ m.stack.map (·.context), m.world.parent? x = some c
  seen : ∀ frame ∈ m.stack, m.world.keyState frame.context frame.key ≠ none
  apart : (m.stack.map fun frame => (frame.context, frame.key)).Nodup

end Shapes

variable {w₀ : World K N V σ B} {c : CacheId} {keys : Finset K}

omit [DecidableEq N] [BEq V] [ToString K] in
/-- An entry stays in its context, whatever becomes of it, unless the context is cleared. -/
theorem World.Obeys.seen {w w' : World K N V σ B} {d : Demand K V} (h : w.Obeys w' d)
    {x : ContextId} (hd : d ≠ .clear x) {k : K} (hseen : w.keyState x k ≠ none) :
    w'.keyState x k ≠ none := by
  obtain ⟨e, hshift, hpermits, -⟩ := h.shift
  obtain ⟨s, hs⟩ := Option.ne_none_iff_exists'.1 hseen
  rcases hshift.state_lasts hs with hsame | ⟨s', -, hs'⟩ | rfl
  · simp [hsame]
  · simp [hs']
  · exact absurd hpermits hd

namespace Machine.Confined

variable {body : B → ContextId → K → Body K N V σ B} {m m' : Machine K N V σ B}

/-! ### Where it starts -/

/-- A confined routine starts while nothing is claimed. -/
theorem start {w : World K N V σ B} (free : ∀ d l, w.holder d l = none) {b : Body K N V σ B}
    (hb : b.Confined w c keys none) : (Machine.start w b).Confined w c keys where
  grows := .refl w
  mirrors := .of_free free
  aligned := trivial
  claims := by simp [Machine.start, held, passes, Focus.passes]
  focus := hb
  stack := trivial
  attached := by simp [Machine.start, Focus.contexts]
  seen := by simp [Machine.start]
  apart := List.nodup_nil

/-! ### What a step keeps -/

/-- A pass is for a key of the set, on the first thread. -/
theorem pass_claim (hm : m.Confined w₀ c keys) {p : Pass K} (hp : p ∈ m.passes) :
    p.cache = c ∧ p.key ∈ keys ∧ p.thread = .main := hm.claims _ (List.mem_map_of_mem hp)

/-- All builders run on the first thread. -/
theorem thread_eq (hm : m.Confined w₀ c keys) : m.thread = .main := by
  rw [m.thread_eq]
  rcases hm.aligned.threadOn_cases with hmain | ⟨p, hp, hthread⟩
  · exact hmain
  · rw [← hthread]
    exact (hm.pass_claim (List.mem_append_right _ hp)).2.2

/-- A claim that is taken is the claim of a key of the set, for the first thread. -/
theorem asksFor (hm : m.Confined w₀ c keys) {d : CacheId} {k : K} {thread : ThreadId}
    {receiver : Receiver K N V σ B} (h : m.AsksFor d k thread receiver) :
    d = c ∧ k ∈ keys ∧ thread = .main := by
  have hfocus := hm.focus
  cases h with
  | get next hget =>
      rw [hget] at hfocus
      cases hfocus with
      | get mem after => exact ⟨rfl, mem, hm.thread_eq⟩
  | wake thread waiting outcomes next hwake =>
      rw [hwake] at hfocus
      exact hfocus.elim

/-- A step claims nothing but keys of the set, for the first thread. -/
theorem step_claims (hm : m.Confined w₀ c keys) (made : m.step body = some m') :
    ∀ claim ∈ m'.held, claim.1 = c ∧ claim.2.1 ∈ keys ∧ claim.2.2 = .main := by
  intro claim hclaim
  rcases (Posting.of_step made).claims with ⟨hheld, -⟩ |
    ⟨d, k, thread, receiver, hasks, -, -, -, hheld, -⟩ | ⟨p, r, receiver, hheld, -⟩
  · exact hm.claims claim (hheld ▸ hclaim)
  · rw [hheld] at hclaim
    rcases List.mem_cons.1 hclaim with rfl | hclaim
    · exact hm.asksFor hasks
    · exact hm.claims claim hclaim
  · exact hm.claims claim (hheld ▸ List.mem_cons_of_mem _ hclaim)

/-- A confined routine clears nothing. -/
theorem demand_ne_clear (hm : m.Confined w₀ c keys) (x : ContextId) : m.demand ≠ .clear x := by
  intro hdemand
  have hfocus := hm.focus
  rw [demand] at hdemand
  split at hdemand
  · rename_i r next hperform
    rw [hperform] at hfocus
    cases hfocus with
    | perform keeps answers after => cases r <;> simp_all [Request.demand]
  all_goals simp at hdemand

/-- What happens next is what a confined routine does. -/
theorem step_focus (hbody : ∀ b x l, l ∈ keys → (body b x l).Confined w₀ c keys (some x))
    (hm : m.Confined w₀ c keys) (made : m.step body = some m') :
    m'.focus.Confined w₀ c keys (contextOn m'.stack) ∧ StackConfined w₀ c keys m'.stack := by
  have hfocus := hm.focus
  have hstack := hm.stack
  cases Transition.of_step made with
  | returnError e => exact ⟨hstack.2.1, hstack.2.2⟩
  | returnRefused e => exact ⟨hstack.2.1, hstack.2.2⟩
  | returnRecorded recorded => exact ⟨hstack.2.1, hstack.2.2⟩
  | unwindRoutine message => exact ⟨.panic message, hstack.2.2⟩
  | unwindPass message idles => exact ⟨hstack.2.1, hstack.2.2⟩
  | perform r next answered =>
      cases hfocus with
      | perform keeps answers after => exact ⟨after _, hstack⟩
  | build =>
      cases hfocus with
      | build own mem after => exact ⟨⟨mem, own, after⟩, hstack⟩
  | get idles reached =>
      cases hfocus with
      | get mem after => cases reached <;> exact ⟨after, hstack⟩
  | race idles stored => cases hfocus
  | askAnswered answered => exact ⟨hfocus.2, hstack⟩
  | askBuild b missed => exact ⟨hbody _ _ _ hfocus.1, hfocus.1, hfocus.2, hstack⟩
  | replyRoutine => exact ⟨hfocus.2 _, hstack⟩
  | passFailed e idles => exact ⟨hfocus, hstack⟩
  | committed commit idles => exact ⟨hfocus, hstack⟩
  | conflictSettled commit stored idles => exact ⟨hfocus, hstack⟩
  | conflictRetried commit => exact ⟨hfocus, hstack⟩
  | exhausted e idles => exact ⟨hfocus, hstack⟩
  | attempt left idles created =>
      exact ⟨⟨(hm.pass_claim (List.mem_cons_self ..)).2.1, hfocus⟩, hstack⟩
  | deliverReturned r => exact ⟨hfocus r, hstack⟩
  | deliverPanicked message => exact ⟨.panic message, hstack⟩
  | deliverCrowd => exact hfocus.elim
  | wakeDone => exact hfocus.elim
  | wakeNext idles reached => exact hfocus.elim

/-- Every context that is used after the step was used before, or is the one that a pass is started
in. -/
theorem step_attached (hm : m.Confined w₀ c keys) (made : m.step body = some m') :
    ∀ x ∈ m'.focus.contexts ++ m'.stack.map (·.context), m'.world.parent? x = some c := by
  have hgrows := (Transition.of_step made).obeys.grows
  have hold : ∀ x ∈ m.focus.contexts ++ m.stack.map (·.context), m'.world.parent? x = some c :=
    fun x hx => hgrows.parent (hm.attached x hx)
  have hfocus := hm.focus
  cases Transition.of_step made with
  | build =>
      cases hfocus with
      | @build y k next own mem after =>
          rename_i w stack
          intro x hx
          rcases List.mem_cons.1 hx with rfl | hx
          · cases stack with
            | nil => simp [contextOn] at own
            | cons frame rest =>
                obtain rfl := Option.some.inj own
                exact hold _ (by simp)
          · exact hold x (List.mem_append_right _ hx)
  | get idles reached =>
      cases reached <;> exact hold
  | attempt left idles created =>
      obtain ⟨cache, context, -, -, hcontext, -, hparent, -⟩ := World.createContext_inv created
      intro y hy
      rcases List.mem_cons.1 hy with rfl | hy
      · rw [World.parent?_of_context? hcontext, hparent, (hm.pass_claim (List.mem_cons_self ..)).1]
      · exact hold y hy
  | deliverCrowd => exact hfocus.elim
  | wakeDone => exact hfocus.elim
  | wakeNext idles reached => exact hfocus.elim
  | returnError e => exact hold
  | returnRefused e => exact hold
  | returnRecorded recorded => exact hold
  | perform r next answered => exact hold
  | race idles stored => exact hold
  | askAnswered answered => exact hold
  | askBuild b missed => exact hold
  | exhausted e idles => exact hold
  | deliverReturned r => exact hold
  | deliverPanicked message => exact hold
  | _ => exact fun x hx => hold x (List.mem_cons_of_mem _ hx)

/-- A builder is called for a key that its context has not seen. -/
theorem step_calls (hm : m.Confined w₀ c keys) (made : m.step body = some m') :
    (∀ frame ∈ m'.stack, m'.world.keyState frame.context frame.key ≠ none) ∧
      (m'.stack.map fun frame => (frame.context, frame.key)).Nodup := by
  have hobeys := (Transition.of_step made).obeys
  have hold : ∀ frame ∈ m.stack, m'.world.keyState frame.context frame.key ≠ none :=
    fun frame hframe => hobeys.seen (hm.demand_ne_clear _) (hm.seen frame hframe)
  by_cases hask : ∃ x k asker, m.focus = .ask x k asker
  · have happart := hm.apart
    have hseen := hm.seen
    cases Transition.of_step made with
    | askBuild b missed =>
        obtain ⟨context, -, -, hmark⟩ := World.lookup_build missed
        cases hmark with
        | mark x k unseen states cells =>
            refine ⟨fun frame hframe => ?_, List.nodup_cons.2 ⟨fun hmem => ?_, happart⟩⟩
            · rcases List.mem_cons.1 hframe with rfl | hframe
              · simp [states]
              · exact hold frame hframe
            · -- A builder call that is in progress has been seen.
              obtain ⟨frame, hframe, hcalled⟩ := List.mem_map.1 hmem
              obtain ⟨rfl, rfl⟩ := Prod.mk.inj hcalled
              exact hseen frame hframe unseen
    | askAnswered answered => exact ⟨hold, happart⟩
    | _ => simp at hask
  · obtain ⟨frames, hframes⟩ := (Transition.of_step made).stack_suffix fun x k asker hfocus =>
      hask ⟨x, k, asker, hfocus⟩
    have hsublist : m'.stack.Sublist m.stack := hframes ▸ List.sublist_append_right ..
    exact ⟨fun frame hframe => hold frame (hsublist.subset hframe),
      hm.apart.sublist (hsublist.map _)⟩

/-- Whatever a step does, confined builders stay confined. -/
theorem step (hbody : ∀ b x l, l ∈ keys → (body b x l).Confined w₀ c keys (some x))
    (hm : m.Confined w₀ c keys) (made : m.step body = some m') : m'.Confined w₀ c keys where
  grows := hm.grows.trans (Transition.of_step made).obeys.grows
  mirrors := hm.mirrors.posting_alone (.of_step made)
  aligned := hm.aligned.step made
  claims := hm.step_claims made
  focus := (hm.step_focus hbody made).1
  stack := (hm.step_focus hbody made).2
  attached := hm.step_attached made
  seen := (hm.step_calls made).1
  apart := (hm.step_calls made).2

/-- So do they over a whole run. -/
theorem run (hbody : ∀ b x l, l ∈ keys → (body b x l).Confined w₀ c keys (some x))
    (hm : m.Confined w₀ c keys) (i : Nat) : (Machine.run body i m).Confined w₀ c keys := by
  induction i generalizing m with
  | zero => exact hm
  | succ i ih =>
      rw [Machine.run]
      split
      · exact hm
      · rename_i made
        exact ih (hm.step hbody made)

/-! ### How many builder calls are in progress -/

/-- No key is derived by two requests, so there are at most as many as there are keys. -/
theorem length_held_le (hm : m.Confined w₀ c keys) : m.held.length ≤ keys.card := by
  have honce := hm.mirrors.once ()
  have hsubset : (m.held.map fun claim => (claim.1, claim.2.1)).toFinset ⊆ {c} ×ˢ keys := by
    intro claimed hclaimed
    obtain ⟨claim, hclaim, rfl⟩ := List.mem_map.1 (List.mem_toFinset.1 hclaimed)
    obtain ⟨hcache, hkey, -⟩ := hm.claims claim hclaim
    exact Finset.mem_product.2 ⟨Finset.mem_singleton.2 hcache, hkey⟩
  calc m.held.length = (m.held.map fun claim => (claim.1, claim.2.1)).toFinset.card := by
        rw [List.toFinset_card_of_nodup honce, List.length_map]
    _ ≤ ({c} ×ˢ keys).card := Finset.card_le_card hsubset
    _ = keys.card := by rw [Finset.card_product, Finset.card_singleton, Nat.one_mul]

end Machine.Confined

/-- The contexts of the passes whose builders are running. -/
def passContexts (stack : List (Frame K N V σ B)) : List ContextId :=
  stack.flatMap fun frame => frame.asker.passes.map fun _ => frame.context

/-- The running builders are those of keys of the set. -/
theorem StackConfined.key_mem {stack : List (Frame K N V σ B)} (h : StackConfined w₀ c keys stack)
    {frame : Frame K N V σ B} (hframe : frame ∈ stack) : frame.key ∈ keys := by
  induction stack with
  | nil => simp at hframe
  | cons top rest ih =>
      rcases List.mem_cons.1 hframe with rfl | hframe
      · exact h.1
      · exact ih h.2.2 hframe

/-- A builder that was called within a pass was called in the context of a pass that is running. -/
theorem StackConfined.mem_passContexts {stack : List (Frame K N V σ B)}
    (h : StackConfined w₀ c keys stack) {frame : Frame K N V σ B} (hframe : frame ∈ stack) :
    frame.context ∈ passContexts stack := by
  induction stack generalizing frame with
  | nil => simp at hframe
  | cons top rest ih =>
      obtain ⟨-, hasker, hrest⟩ := h
      have hbelow : passContexts rest ⊆ passContexts (top :: rest) :=
        List.subset_append_right ..
      rcases List.mem_cons.1 hframe with rfl | hframe
      · cases hpass : frame.asker with
        | routine next =>
            rw [hpass] at hasker
            obtain ⟨hcontext, -⟩ := hasker
            cases rest with
            | nil => simp [contextOn] at hcontext
            | cons below rest =>
                obtain hsame : below.context = frame.context := Option.some.inj hcontext
                exact hbelow (hsame ▸ ih hrest (List.mem_cons_self ..))
        | pass p receiver => simp [passContexts, hpass, Asker.passes]
      · exact hbelow (ih hrest hframe)

/-- There are at most as many builder calls in progress as there are pairs of keys: one call for
every key in the context of every pass, and one pass for every key. -/
theorem Machine.Confined.length_stack_le {m : Machine K N V σ B} (hm : m.Confined w₀ c keys) :
    m.stack.length ≤ keys.card * keys.card := by
  have hstack := hm.stack
  have hsubset : (m.stack.map fun frame => (frame.context, frame.key)).toFinset ⊆
      (passContexts m.stack).toFinset ×ˢ keys := by
    intro call hcall
    obtain ⟨frame, hframe, rfl⟩ := List.mem_map.1 (List.mem_toFinset.1 hcall)
    exact Finset.mem_product.2
      ⟨List.mem_toFinset.2 (hstack.mem_passContexts hframe), hstack.key_mem hframe⟩
  have hpasses : (passContexts m.stack).length ≤ m.held.length := by
    rw [Machine.held, Machine.passes, List.length_map, List.length_append, passContexts,
      List.length_flatMap, List.length_flatMap]
    simp
  calc m.stack.length = (m.stack.map fun frame => (frame.context, frame.key)).toFinset.card := by
        rw [List.toFinset_card_of_nodup hm.apart, List.length_map]
    _ ≤ ((passContexts m.stack).toFinset ×ˢ keys).card := Finset.card_le_card hsubset
    _ = (passContexts m.stack).toFinset.card * keys.card := Finset.card_product ..
    _ ≤ m.held.length * keys.card :=
        Nat.mul_le_mul_right _ ((List.toFinset_card_le _).trans hpasses)
    _ ≤ keys.card * keys.card := Nat.mul_le_mul_right _ hm.length_held_le

end DerivationCache
