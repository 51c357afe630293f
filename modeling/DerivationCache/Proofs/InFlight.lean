import DerivationCache.Proofs.Execution
import DerivationCache.Proofs.Posting

/-!
# Claims in flight

A request that derives a key holds a claim of the key in its cache, from the step at which it finds
the key free to the step at which its outcome is delivered, whichever way it ends. The caches have
these claims on record, and nothing else (`World.Mirrors`). So whether a thread is refused a key can
be said without the record: it is, if and only if one of its own requests, further up its stack, is
deriving the key.

For this last point it matters which thread runs what. A builder runs on the thread that its pass
runs on (`Aligned`), and a thread that waits for its turn is a fresh one, which holds nothing yet
(`Machine.Threaded`).

## Main results

* `Posting.claims`: a step takes a claim, gives the innermost one back, or leaves all as they are.
* `World.Mirrors.posting`: the record of claims stays true to what machines hold.
* `Machine.Threaded.step`: threads that wait hold nothing.
* `claims_in_flight`: the record over whole sessions, and when a request is refused.
-/

namespace DerivationCache

variable {K N V σ B : Type} [DecidableEq K]

/-! ### Claims step by step -/

/-- A step takes a claim, gives the innermost one back, or leaves all claims as they are. A request
that ends gives its claim back, if it has one. -/
theorem Posting.claims {m m' : Machine K N V σ B} (h : Posting m m') :
    (m'.held = m.held ∧ (∀ c k, m'.world.holder c k = m.world.holder c k) ∧
        ∀ c k r receiver, m'.focus = .deliver c k r receiver →
          ∃ thread, m.AsksFor c k thread receiver) ∨
      (∃ c k thread receiver, m.AsksFor c k thread receiver ∧ m.world.holder c k = none ∧
        m.world.stored c k = none ∧ m.world.replayable c k = none ∧
        m'.held = (c, k, thread) :: m.held ∧
        m'.focus = .attempt ⟨c, k, thread, passLimit⟩ receiver ∧
        ∀ d l, m'.world.holder d l = if d = c ∧ l = k then some thread else m.world.holder d l) ∨
      ∃ (p : Pass K) (r : Outcome V) (receiver : Receiver K N V σ B), m.held = p.claim :: m'.held ∧
        m'.focus = .deliver p.cache p.key r receiver ∧
        ∀ d l, m'.world.holder d l =
          if d = p.cache ∧ l = p.key then none else m.world.holder d l := by
  have hquiet (hends : ∀ c k r, ¬ m.Ends m' c k r) (c : CacheId) (k : K) (r : Outcome V)
      (receiver : Receiver K N V σ B) (hfocus : m'.focus = .deliver c k r receiver) :
      ∃ thread, m.AsksFor c k thread receiver :=
    absurd (.delivered receiver hfocus) (hends c k r)
  cases h with
  | kept accounts threads held waiting unclaimed answers =>
      exact Or.inl ⟨held, fun c k => World.holder_of_account (accounts c k), unclaimed⟩
  | raced n fresh outcomes next accounts threads held started before after waiting answers =>
      refine Or.inl ⟨held, fun c k => World.holder_of_account (accounts c k),
        fun c k r receiver hfocus => ?_⟩
      simp [after] at hfocus
  | filled fills held waiting quiet =>
      exact Or.inl ⟨held, fun c k => fills.holder c k, hquiet quiet⟩
  | forgot c next focus accounts threads held waiting quiet =>
      refine Or.inl ⟨held, fun d l => ?_, hquiet quiet⟩
      rw [World.holder, accounts]
      split <;> rfl
  | claimed c k thread receiver request free unpublished unreplayable updates focus stack =>
      exact Or.inr (Or.inl ⟨c, k, thread, receiver, request, free, unpublished, unreplayable,
        request.held_of_attempt focus stack, focus, updates.holder fun _ => rfl⟩)
  | settled w p outcome receiver fills updates focus held waiting unfailed =>
      refine Or.inr (Or.inr ⟨p, outcome, receiver, held, focus, fun d l => ?_⟩)
      rw [updates.holder fun _ => rfl, fills.holder]
  | failed x l f p receiver memo reply focus remembers updates held waiting =>
      exact Or.inr (Or.inr ⟨p, _, receiver, held, focus, updates.holder fun _ => rfl⟩)

/-- The holders on record are those of the claims that a family of machines holds. No key is claimed
twice. -/
structure World.Mirrors {ι : Type} (w : World K N V σ B)
    (held : ι → List (CacheId × K × ThreadId)) : Prop where
  holder : ∀ c k t, w.holder c k = some t ↔ ∃ i, (c, k, t) ∈ held i
  once : ∀ i, ((held i).map fun claim => (claim.1, claim.2.1)).Nodup
  apart : ∀ {i j c k s t}, (c, k, s) ∈ held i → (c, k, t) ∈ held j → i = j

namespace World.Mirrors

variable {ι : Type} {m m' : Machine K N V σ B} {held : ι → List (CacheId × K × ThreadId)}

omit [DecidableEq K] in
/-- What the machines hold after one of them has claimed a key. -/
theorem mem_update_cons [DecidableEq ι] {i : ι} {claim : CacheId × K × ThreadId} (j : ι)
    (other : CacheId × K × ThreadId) :
    other ∈ Function.update held i (claim :: held i) j ↔
      (j = i ∧ other = claim) ∨ other ∈ held j := by
  by_cases hj : j = i
  · subst hj
    simp
  · simp [hj]

/-- What the machines hold after one of them has given its innermost claim back. -/
theorem mem_update_tail [DecidableEq ι] {w : World K N V σ B} (hm : w.Mirrors held) {i : ι}
    {c : CacheId} {k : K} {t : ThreadId} {rest : List (CacheId × K × ThreadId)}
    (hi : held i = (c, k, t) :: rest) (j : ι) (d : CacheId) (l : K) (s : ThreadId) :
    (d, l, s) ∈ Function.update held i rest j ↔ (d, l, s) ∈ held j ∧ ¬ (d = c ∧ l = k) := by
  have hhead : (c, k, t) ∈ held i := by rw [hi]; exact List.mem_cons_self ..
  by_cases hj : j = i
  · subst hj
    have honce := hm.once j
    rw [hi, List.map_cons, List.nodup_cons] at honce
    rw [Function.update_self, hi, List.mem_cons]
    constructor
    · intro hrest
      refine ⟨Or.inr hrest, ?_⟩
      rintro ⟨rfl, rfl⟩
      exact honce.1 (List.mem_map.2 ⟨_, hrest, rfl⟩)
    · rintro ⟨hclaim | hrest, hne⟩
      · obtain ⟨rfl, rfl, -⟩ : d = c ∧ l = k ∧ s = t := by simpa using hclaim
        exact absurd ⟨rfl, rfl⟩ hne
      · exact hrest
  · rw [Function.update_of_ne hj]
    refine ⟨fun hheld => ⟨hheld, ?_⟩, And.left⟩
    rintro ⟨rfl, rfl⟩
    exact hj (hm.apart hheld hhead)

/-- The record stays true when one of the machines claims a key that was free. -/
theorem claim [DecidableEq ι] {w w' : World K N V σ B} (hm : w.Mirrors held) (i : ι) {c : CacheId}
    {k : K} {t : ThreadId} (hfree : w.holder c k = none)
    (hholder : ∀ d l, w'.holder d l = if d = c ∧ l = k then some t else w.holder d l) :
    w'.Mirrors (Function.update held i ((c, k, t) :: held i)) := by
  have hunclaimed (j : ι) (s : ThreadId) : (c, k, s) ∉ held j := fun hs => by
    have hsome := (hm.holder c k s).2 ⟨j, hs⟩
    simp [hfree] at hsome
  refine ⟨fun d l s => ?_, fun j => ?_, fun {j j' d l s s'} hs hs' => ?_⟩
  · simp only [hholder, mem_update_cons]
    by_cases hdl : d = c ∧ l = k
    · obtain ⟨rfl, rfl⟩ := hdl
      rw [if_pos ⟨rfl, rfl⟩]
      constructor
      · intro hst
        exact ⟨i, Or.inl ⟨rfl, by rw [Option.some.inj hst]⟩⟩
      · rintro ⟨j, ⟨-, hclaim⟩ | hs⟩
        · rw [(Prod.mk.inj (Prod.mk.inj hclaim).2).2]
        · exact absurd hs (hunclaimed j s)
    · rw [if_neg hdl, hm.holder]
      refine exists_congr fun j => ⟨Or.inr, fun h => h.resolve_left ?_⟩
      rintro ⟨-, hclaim⟩
      exact hdl ⟨(Prod.mk.inj hclaim).1, (Prod.mk.inj (Prod.mk.inj hclaim).2).1⟩
  · by_cases hj : j = i
    · subst hj
      rw [Function.update_self, List.map_cons, List.nodup_cons]
      refine ⟨fun hmem => ?_, hm.once j⟩
      obtain ⟨⟨d, l, s⟩, hs, hdl⟩ := List.mem_map.1 hmem
      obtain ⟨rfl, rfl⟩ := Prod.mk.inj hdl
      exact hunclaimed j s hs
    · rw [Function.update_of_ne hj]
      exact hm.once j
  · rw [mem_update_cons] at hs hs'
    rcases hs with ⟨rfl, hs⟩ | hs <;> rcases hs' with ⟨rfl, hs'⟩ | hs'
    · rfl
    · obtain ⟨rfl, rfl, -⟩ : d = c ∧ l = k ∧ s = t := by simpa using hs
      exact absurd hs' (hunclaimed j' s')
    · obtain ⟨rfl, rfl, -⟩ : d = c ∧ l = k ∧ s' = t := by simpa using hs'
      exact absurd hs (hunclaimed j s)
    · exact hm.apart hs hs'

/-- It stays true when one of them gives its innermost claim back. -/
theorem release [DecidableEq ι] {w w' : World K N V σ B} (hm : w.Mirrors held) {i : ι} {c : CacheId}
    {k : K} {t : ThreadId} {rest : List (CacheId × K × ThreadId)} (hi : held i = (c, k, t) :: rest)
    (hholder : ∀ d l, w'.holder d l = if d = c ∧ l = k then none else w.holder d l) :
    w'.Mirrors (Function.update held i rest) := by
  have hmem := hm.mem_update_tail hi
  refine ⟨fun d l s => ?_, fun j => ?_, fun {j j' d l s s'} hs hs' => ?_⟩
  · simp only [hholder, hmem]
    by_cases hdl : d = c ∧ l = k
    · simp [hdl]
    · rw [if_neg hdl, hm.holder]
      exact exists_congr fun j => ⟨fun hs => ⟨hs, hdl⟩, And.left⟩
  · by_cases hj : j = i
    · subst hj
      have honce := hm.once j
      rw [hi, List.map_cons, List.nodup_cons] at honce
      rw [Function.update_self]
      exact honce.2
    · rw [Function.update_of_ne hj]
      exact hm.once j
  · exact hm.apart ((hmem j d l s).1 hs).1 ((hmem j' d l s').1 hs').1

/-- It stays true when one of them makes a step. -/
theorem posting [DecidableEq ι] {i : ι} (hm : m.world.Mirrors held) (h : Posting m m')
    (hi : held i = m.held) : m'.world.Mirrors (Function.update held i m'.held) := by
  rcases h.claims with ⟨hheld, hholder, -⟩ |
    ⟨c, k, t, receiver, -, hfree, -, -, hheld, -, hholder⟩ | ⟨p, r, receiver, hheld, -, hholder⟩
  · rw [hheld, ← hi, Function.update_eq_self]
    exact ⟨fun c k t => by rw [hholder, hm.holder], hm.once, hm.apart⟩
  · rw [hheld, ← hi]
    exact hm.claim i hfree hholder
  · exact hm.release (hi.trans hheld) hholder

/-- It stays true when there is only one machine, and it makes a step. -/
theorem posting_alone (hm : m.world.Mirrors fun _ : Unit => m.held) (h : Posting m m') :
    m'.world.Mirrors fun _ : Unit => m'.held := by
  have hsame : Function.update (fun _ : Unit => m.held) () m'.held = fun _ => m'.held :=
    funext fun _ => Function.update_self ..
  have hposting := hm.posting h (i := ()) rfl
  rwa [hsame] at hposting

/-- Where nothing is claimed, nothing has to be held. -/
theorem of_free {w : World K N V σ B} (hfree : ∀ c k, w.holder c k = none) :
    w.Mirrors fun _ : ι => [] := by
  refine ⟨fun c k t => ?_, fun _ => List.nodup_nil, fun h => ?_⟩
  · simp [hfree]
  · simp at h

end World.Mirrors

/-! ### Which thread runs what -/

section Threads

omit [DecidableEq K]

/-- The thread that runs on top of these builder calls. -/
def threadOn : List (Frame K N V σ B) → ThreadId
  | [] => .main
  | frame :: _ => frame.thread

/-- The thread that a builder runs on, if this thread is the one below. -/
def Asker.thread (below : ThreadId) : Asker K N V σ B → ThreadId
  | .routine _ => below
  | .pass p _ => p.thread

/-- Every builder runs on the thread that asks for its key: the one that holds the claim, if a pass
asks for its requested key, and else the one that runs the asking routine. -/
def Aligned : List (Frame K N V σ B) → Prop
  | [] => True
  | frame :: rest => frame.thread = frame.asker.thread (threadOn rest) ∧ Aligned rest

/-- The running thread can be told from the stack alone. -/
theorem Machine.thread_eq (m : Machine K N V σ B) : m.thread = threadOn m.stack := by
  obtain ⟨w, focus, stack⟩ := m
  cases stack <;> rfl

/-- Calls below others are aligned among themselves. -/
theorem Aligned.of_append {frames rest : List (Frame K N V σ B)} (h : Aligned (frames ++ rest)) :
    Aligned rest := by
  induction frames with
  | nil => exact h
  | cons frame frames ih => exact ih h.2

/-- The running thread is the first one, or holds a claim. -/
theorem Aligned.threadOn_cases {stack : List (Frame K N V σ B)} (h : Aligned stack) :
    threadOn stack = .main ∨
      ∃ p ∈ stack.flatMap (fun frame => frame.asker.passes), p.thread = threadOn stack := by
  induction stack with
  | nil => exact Or.inl rfl
  | cons frame rest ih =>
      obtain ⟨hthread, hrest⟩ := h
      have hon : threadOn (frame :: rest) = frame.asker.thread (threadOn rest) := hthread
      rw [hon]
      cases hasker : frame.asker with
      | routine next =>
          refine (ih hrest).imp id ?_
          rintro ⟨p, hp, hpt⟩
          exact ⟨p, by simpa [hasker, Asker.passes] using hp, hpt⟩
      | pass p receiver => exact Or.inr ⟨p, by simp [hasker, Asker.passes], rfl⟩

end Threads

section Steps

variable [DecidableEq N] [BEq V] [ToString K] {body : B → ContextId → K → Body K N V σ B}
  {m m' : Machine K N V σ B}

/-- Builders are called by requests within passes, and by nothing else. -/
theorem Transition.stack_suffix (h : Transition body m m')
    (hask : ∀ x k asker, m.focus ≠ .ask x k asker) : m'.stack <:+ m.stack := by
  cases h with
  | returnError e => exact List.suffix_cons ..
  | returnRefused e => exact List.suffix_cons ..
  | returnRecorded recorded => exact List.suffix_cons ..
  | unwindRoutine message => exact List.suffix_cons ..
  | unwindPass message idles => exact List.suffix_cons ..
  | askBuild b missed => exact absurd rfl (hask _ _ _)
  | _ => exact List.suffix_rfl

/-- Builders go on running on the threads that asked for them. -/
theorem Aligned.step (hm : Aligned m.stack) (h : m.step body = some m') : Aligned m'.stack := by
  by_cases hask : ∃ x k asker, m.focus = .ask x k asker
  · obtain ⟨x, k, asker, hfocus⟩ := hask
    simp only [Machine.step, hfocus, Machine.stepAsk, bind, Option.bind_eq_some_iff] at h
    obtain ⟨⟨l, w⟩, -, h⟩ := h
    cases l with
    | answered answer =>
        obtain rfl := Option.some.inj h
        exact hm
    | build b =>
        obtain rfl := Option.some.inj h
        refine ⟨?_, hm⟩
        cases asker with
        | routine next => exact m.thread_eq
        | pass p receiver => rfl
  · obtain ⟨frames, hframes⟩ := (Transition.of_step h).stack_suffix fun x k asker hfocus =>
      hask ⟨x, k, asker, hfocus⟩
    rw [← hframes] at hm
    exact hm.of_append

end Steps

/-- Threads that wait for their turn are fresh: none of them waits twice, holds a claim, or runs a
builder. -/
structure Machine.Threaded (m : Machine K N V σ B) : Prop where
  aligned : Aligned m.stack
  once : m.waiting.Nodup
  idle : ∀ t ∈ m.waiting, t ≠ .main ∧ ∀ claim ∈ m.held, claim.2.2 ≠ t
  started : ∀ t, t = .main ∨ t ∈ m.waiting ∨ (∃ claim ∈ m.held, claim.2.2 = t) →
    t.index < m.world.threads

namespace Machine.Threaded

variable {m m' : Machine K N V σ B}

omit [DecidableEq K] in
/-- The running thread does not wait. -/
theorem thread_not_waiting (hm : m.Threaded) : m.thread ∉ m.waiting := by
  intro hwaiting
  obtain ⟨hmain, hheld⟩ := hm.idle _ hwaiting
  rw [m.thread_eq] at hmain hheld
  rcases hm.aligned.threadOn_cases with h | ⟨p, hp, hpt⟩
  · exact hmain h
  · refine hheld p.claim (List.mem_map_of_mem (List.mem_append_right _ hp)) hpt

omit [DecidableEq K] in
/-- The running thread is one that was started. -/
theorem thread_started (hm : m.Threaded) : m.thread.index < m.world.threads := by
  refine hm.started _ ?_
  rw [m.thread_eq]
  rcases hm.aligned.threadOn_cases with h | ⟨p, hp, hpt⟩
  · exact Or.inl h
  · exact Or.inr (Or.inr ⟨p.claim, List.mem_map_of_mem (List.mem_append_right _ hp), hpt⟩)

omit [DecidableEq K] in
/-- Claims are given back, threads stop waiting, and none is started. -/
theorem mono (hm : m.Threaded) (aligned : Aligned m'.stack) (hwaiting : m'.waiting <:+ m.waiting)
    (hheld : m'.held <:+ m.held) (hthreads : m'.world.threads = m.world.threads) :
    m'.Threaded where
  aligned := aligned
  once := hm.once.sublist hwaiting.sublist
  idle t ht := by
    obtain ⟨hmain, hidle⟩ := hm.idle t (hwaiting.subset ht)
    exact ⟨hmain, fun claim hclaim => hidle claim (hheld.subset hclaim)⟩
  started t ht := by
    rw [hthreads]
    refine hm.started t (ht.imp_right (Or.imp (fun h => hwaiting.subset h) ?_))
    rintro ⟨claim, hclaim, rfl⟩
    exact ⟨claim, hheld.subset hclaim, rfl⟩

omit [DecidableEq K] in
/-- Threads are started, and some of them wait. -/
theorem raced (hm : m.Threaded) (aligned : Aligned m'.stack) {n : Nat} {fresh : List ThreadId}
    (hthreads : m'.world.threads = m.world.threads + n) (hheld : m'.held = m.held)
    (hstarted : fresh.Sublist ((List.range n).map fun i => ⟨m.world.threads + i⟩))
    (hwaiting : m'.waiting = fresh ++ m.waiting) : m'.Threaded := by
  have hbounds {t : ThreadId} (ht : t ∈ fresh) :
      m.world.threads ≤ t.index ∧ t.index < m.world.threads + n := by
    obtain ⟨i, hi, rfl⟩ := List.mem_map.1 (hstarted.subset ht)
    exact ⟨Nat.le_add_right .., Nat.add_lt_add_left (List.mem_range.1 hi) _⟩
  have hold {t : ThreadId} (ht : t = .main ∨ t ∈ m.waiting ∨ ∃ claim ∈ m.held, claim.2.2 = t) :
      t ∉ fresh := fun hfresh => by
    have hlt := hm.started t ht
    have hle := (hbounds hfresh).1
    omega
  have hnodup : fresh.Nodup := by
    refine List.Nodup.sublist hstarted (List.Nodup.map (fun i j hij => ?_) List.nodup_range)
    simpa using hij
  refine ⟨aligned, ?_, fun t ht => ?_, fun t ht => ?_⟩
  · rw [hwaiting]
    refine List.Nodup.append hnodup hm.once fun t hfresh hwait => ?_
    exact hold (Or.inr (Or.inl hwait)) hfresh
  · rw [hwaiting, List.mem_append] at ht
    rw [hheld]
    rcases ht with ht | ht
    · refine ⟨fun hmain => hold (Or.inl hmain) ht, fun claim hclaim hct => ?_⟩
      exact hold (Or.inr (Or.inr ⟨claim, hclaim, hct⟩)) ht
    · exact hm.idle t ht
  · rw [hwaiting, List.mem_append, hheld] at ht
    rw [hthreads]
    have hearlier (ht : t = .main ∨ t ∈ m.waiting ∨ ∃ claim ∈ m.held, claim.2.2 = t) :
        t.index < m.world.threads + n := Nat.lt_add_right n (hm.started t ht)
    rcases ht with ht | (ht | ht) | ht
    · exact hearlier (Or.inl ht)
    · exact (hbounds ht).2
    · exact hearlier (Or.inr (Or.inl ht))
    · exact hearlier (Or.inr (Or.inr ht))

omit [DecidableEq K] in
/-- A thread claims a key, the running one or one that has waited. -/
theorem claimed (hm : m.Threaded) (aligned : Aligned m'.stack) {c : CacheId} {k : K}
    {thread : ThreadId} (hthreads : m'.world.threads = m.world.threads)
    (hheld : m'.held = (c, k, thread) :: m.held)
    (hwaiting : (thread = m.thread ∧ m'.waiting = m.waiting) ∨
      m.waiting = thread :: m'.waiting) : m'.Threaded := by
  obtain ⟨hsuffix, hnot, hlt⟩ : m'.waiting <:+ m.waiting ∧ thread ∉ m'.waiting ∧
      thread.index < m.world.threads := by
    rcases hwaiting with ⟨rfl, hwaiting⟩ | hwaiting
    · rw [hwaiting]
      exact ⟨List.suffix_rfl, hm.thread_not_waiting, hm.thread_started⟩
    · have honce := hm.once
      rw [hwaiting, List.nodup_cons] at honce
      refine ⟨hwaiting ▸ List.suffix_cons .., honce.1, hm.started _ (Or.inr (Or.inl ?_))⟩
      rw [hwaiting]
      exact List.mem_cons_self ..
  refine ⟨aligned, hm.once.sublist hsuffix.sublist, fun t ht => ?_, fun t ht => ?_⟩
  · obtain ⟨hmain, hidle⟩ := hm.idle t (hsuffix.subset ht)
    refine ⟨hmain, fun claim hclaim => ?_⟩
    rw [hheld] at hclaim
    rcases List.mem_cons.1 hclaim with rfl | hclaim
    · rintro rfl
      exact hnot ht
    · exact hidle claim hclaim
  · rw [hthreads]
    rcases ht with ht | ht | ⟨claim, hclaim, rfl⟩
    · exact hm.started t (Or.inl ht)
    · exact hm.started t (Or.inr (Or.inl (hsuffix.subset ht)))
    · rw [hheld] at hclaim
      rcases List.mem_cons.1 hclaim with rfl | hclaim
      · exact hlt
      · exact hm.started _ (Or.inr (Or.inr ⟨claim, hclaim, rfl⟩))

/-- A step leaves the threads that wait fresh. -/
theorem posting (hm : m.Threaded) (aligned : Aligned m'.stack) (h : Posting m m') :
    m'.Threaded := by
  cases h with
  | kept accounts threads held waiting unclaimed answers =>
      exact hm.mono aligned waiting (held ▸ List.suffix_rfl) threads
  | raced n fresh outcomes next accounts threads held started before after waiting answers =>
      exact hm.raced aligned threads held started waiting
  | filled fills held waiting quiet =>
      exact hm.mono aligned (waiting ▸ List.suffix_rfl) (held ▸ List.suffix_rfl) fills.threads
  | forgot c next focus accounts threads held waiting quiet =>
      exact hm.mono aligned (waiting ▸ List.suffix_rfl) (held ▸ List.suffix_rfl) threads
  | claimed c k thread receiver request free unpublished unreplayable updates focus stack =>
      exact hm.claimed aligned updates.threads (request.held_of_attempt focus stack)
        (request.waiting_of_attempt focus stack)
  | settled w p outcome receiver fills updates focus held waiting unfailed =>
      exact hm.mono aligned (waiting ▸ List.suffix_rfl) (held ▸ List.suffix_cons _ _)
        (updates.threads.trans fills.threads)
  | failed x l f p receiver memo reply focus remembers updates held waiting =>
      exact hm.mono aligned (waiting ▸ List.suffix_rfl) (held ▸ List.suffix_cons _ _)
        updates.threads

end Machine.Threaded

/-! ### Refusals -/

section Refusals

variable [DecidableEq N] [BEq V] [ToString K] {body : B → ContextId → K → Body K N V σ B}
  {m : Machine K N V σ B} {c : CacheId} {k : K} {cache : Cache K V σ B}

/-- The error of a request for a key that its own thread is deriving. -/
def reentry (k : K) : Outcome V :=
  .returned (.error (.violation (.unresolvableReentry (toString k))))

/-- The next step refuses a request for the key, since its own thread is deriving it. -/
def Machine.Refuses (body : B → ContextId → K → Body K N V σ B) (m : Machine K N V σ B)
    (c : CacheId) (k : K) (receiver : Receiver K N V σ B) : Prop :=
  ∃ m', m.step body = some m' ∧ m'.focus = .deliver c k (reentry k) receiver

namespace Machine

omit [DecidableEq N] [BEq V] in
/-- A thread that reaches for a key is refused if it holds the key itself. -/
theorem claim_refuses_iff (hcache : m.world.cache? c = some cache) {thread : ThreadId}
    {receiver : Receiver K N V σ B} :
    (∃ m', m.claim c k thread receiver = some m' ∧ m'.focus = .deliver c k (reentry k) receiver) ↔
      m.world.holder c k = some thread := by
  have hholder : m.world.holder c k = cache.inFlight.get? k := by
    rw [World.holder, World.account_of_cache? hcache]
    rfl
  rw [hholder]
  constructor
  · rintro ⟨m', h, hfocus⟩
    cases claims_of_claim h with
    | reentrant current held =>
        obtain rfl := Option.some.inj (hcache.symm.trans current)
        rw [Cache.claim] at held
        split at held
        · simp at held
        · rename_i owner howner
          split at held
          · rename_i hthread
            rw [howner, hthread]
          · simp at held
    | @answered _ taken _ r current free found =>
        have hreads := (taken.recheck_reads k).1
        rw [found] at hreads
        obtain ⟨-, -, hr, -⟩ := Focus.deliver.inj hfocus
        obtain rfl := Outcome.returned.inj hr
        rcases hreads with ⟨v, hr, -⟩ | ⟨f, hr, -⟩ | ⟨hr, -⟩ <;> simp at hr
    | claimed current free missed => simp [move] at hfocus
  · intro howner
    have hclaim : cache.claim k thread = .reentrant := by
      rw [Cache.claim, howner]
      exact if_pos rfl
    exact ⟨m.goto (.deliver c k (reentry k) receiver),
      by simp [claim, hcache, hclaim, reentry], rfl⟩

/-- A routine that requests a derived value is answered at once, or reaches for the key. -/
theorem step_get (hcache : m.world.cache? c = some cache)
    {next : Except RequestError V → Body K N V σ B} (hfocus : m.focus = .run (.get c k next)) :
    m.step body = match (cache.request k).1 with
      | some r => some (m.move (m.world.setCache c (cache.request k).2)
          (.deliver c k (.returned r) (.caller next)))
      | none => ({ m with world := m.world.setCache c (cache.request k).2 }).claim c k m.thread
          (.caller next) := by
  simp only [step, hfocus, stepRun, World.onCache, hcache, Option.map_some, bind, Option.bind_some]
  cases (cache.request k).1 <;> rfl

/-- A routine that requests a derived value is refused if the key has to be derived, and its thread
is deriving it. -/
theorem get_refuses_iff (hcache : m.world.cache? c = some cache) (howns : cache.owns k = true)
    (hbuilder : cache.config.makeBuilder.isSome = true)
    {next : Except RequestError V → Body K N V σ B} (hfocus : m.focus = .run (.get c k next)) :
    m.Refuses body c k (.caller next) ↔ m.world.stored c k = none ∧
      m.world.replayable c k = none ∧ m.world.holder c k = some m.thread := by
  obtain ⟨hreads, hsame⟩ := cache.request_reads k
  have hcurrent : (m.world.setCache c (cache.request k).2).cache? c = some (cache.request k).2 :=
    World.cache?_setCache_self hcache _
  have hholder : (m.world.setCache c (cache.request k).2).holder c k = m.world.holder c k :=
    World.holder_of_account
      (World.account_of_ledger (World.ledger_setCache_of_eq hcache hsame) c k)
  have hanswered {r : Except RequestError V} (hr : reentry k ≠ .returned r) :
      ¬ ∃ m', some (m.move (m.world.setCache c (cache.request k).2)
          (.deliver c k (.returned r) (.caller next))) = some m' ∧
        m'.focus = .deliver c k (reentry k) (.caller next) := by
    rintro ⟨m', h, hfocus'⟩
    obtain rfl := Option.some.inj h
    exact hr (Focus.deliver.inj hfocus').2.2.1.symm
  rw [Refuses, step_get hcache hfocus, World.stored_of_cache? hcache, World.replayable, hcache,
    Option.bind_some, ← hholder]
  generalize (cache.request k).1 = answer at hreads
  cases hreads with
  | foreign foreign => simp [foreign] at howns
  | published v stored => exact iff_of_false (hanswered (by simp [reentry])) (by simp [stored])
  | replayed f unpublished replayable =>
      exact iff_of_false (hanswered (by simp [reentry])) (by simp [replayable])
  | readOnly builder => simp [builder] at hbuilder
  | missed owns unpublished unreplayable builder =>
      rw [claim_refuses_iff hcurrent]
      exact ⟨fun h => ⟨unpublished, unreplayable, h⟩, fun h => h.2.2⟩

end Machine

/-! ### Sessions -/

omit [DecidableEq K] [DecidableEq N] [BEq V] [ToString K] in
/-- The machine stands at top level, with no builder call in progress. -/
def Machine.AtTop (m : Machine K N V σ B) : Prop := m.stack = [] ∧ ∃ routine, m.focus = .run routine

omit [DecidableEq K] [DecidableEq N] [BEq V] [ToString K] in
/-- At top level no pass is going on. -/
theorem Machine.AtTop.passes_eq_nil (h : m.AtTop) : m.passes = [] := by
  obtain ⟨hstack, routine, hfocus⟩ := h
  rw [Machine.passes, hstack, hfocus]
  rfl

omit [DecidableEq N] [BEq V] [ToString K] in
/-- The caches have on record what the machine holds, and the threads that wait hold nothing. -/
structure Machine.Recorded (m : Machine K N V σ B) : Prop where
  mirrors : m.world.Mirrors fun _ : Unit => m.held
  threaded : m.Threaded

namespace Machine.Recorded

variable {m' : Machine K N V σ B}

omit [DecidableEq N] [BEq V] [ToString K] in
/-- A claim is on record exactly when the machine holds it. -/
theorem holder_iff (hm : m.Recorded) {t : ThreadId} :
    m.world.holder c k = some t ↔ (c, k, t) ∈ m.held := by
  rw [hm.mirrors.holder]
  exact ⟨fun ⟨_, h⟩ => h, fun h => ⟨(), h⟩⟩

/-- Every step keeps the record. -/
theorem step (hm : m.Recorded) (h : m.step body = some m') : m'.Recorded where
  mirrors := hm.mirrors.posting_alone (.of_step h)
  threaded := hm.threaded.posting (hm.threaded.aligned.step h) (.of_step h)

omit [DecidableEq N] [BEq V] [ToString K] in
/-- A new line of a session finds nothing claimed. -/
theorem line (hm : m.Recorded) (htop : m.AtTop) (client : σ) (routine : Body K N V σ B) :
    (start { m.world with client } routine).Recorded where
  mirrors := by
    have hheld : m.held = [] := by rw [held, htop.passes_eq_nil]; rfl
    have hmirrors := hm.mirrors
    rw [hheld] at hmirrors
    exact ⟨hmirrors.holder, hmirrors.once, hmirrors.apart⟩
  threaded := by
    refine ⟨trivial, List.nodup_nil, fun t ht => by simp [start, waiting, Focus.waiting] at ht,
      fun t ht => ?_⟩
    rcases ht with ht | ht | ⟨claim, hclaim, -⟩
    · exact hm.threaded.started t (Or.inl ht)
    · simp [start, waiting, Focus.waiting] at ht
    · simp [start, held, passes, Focus.passes] at hclaim

omit [DecidableEq N] [BEq V] [ToString K] in
/-- A routine that starts while nothing is claimed holds nothing. -/
theorem starts {w : World K N V σ B} (hfree : ∀ c k, w.holder c k = none)
    (hthreads : 0 < w.threads) (routine : Body K N V σ B) : (start w routine).Recorded where
  mirrors := .of_free hfree
  threaded := by
    refine ⟨trivial, List.nodup_nil, fun t ht => by simp [start, waiting, Focus.waiting] at ht,
      fun t ht => ?_⟩
    rcases ht with rfl | ht | ⟨claim, hclaim, -⟩
    · exact hthreads
    · simp [start, waiting, Focus.waiting] at ht
    · simp [start, held, passes, Focus.passes] at hclaim

/-- A request for a key that can be derived is refused for its own thread's sake if and only if it
has to be derived and its own thread is deriving it. -/
theorem refuses_iff (hm : m.Recorded) {cache : Cache K V σ B}
    (hcache : m.world.cache? c = some cache)
    (howns : cache.owns k = true) (hbuilder : cache.config.makeBuilder.isSome = true)
    {thread : ThreadId} {receiver : Receiver K N V σ B} (h : m.AsksFor c k thread receiver) :
    m.Refuses body c k receiver ↔ m.world.stored c k = none ∧ m.world.replayable c k = none ∧
      (c, k, thread) ∈ m.held := by
  cases h with
  | get next hfocus => rw [get_refuses_iff hcache howns hbuilder hfocus, hm.holder_iff]
  | wake thread waiting outcomes next hfocus =>
      have hwaits : thread ∈ m.waiting := by
        rw [Machine.waiting, hfocus]
        exact List.mem_cons_self ..
      have hidle : (c, k, thread) ∉ m.held := fun hheld =>
        (hm.threaded.idle thread hwaits).2 _ hheld rfl
      refine iff_of_false ?_ fun h => hidle h.2.2
      rw [Refuses, Machine.step, hfocus, claim_refuses_iff hcache, hm.holder_iff]
      exact hidle

end Machine.Recorded

/-- Every state of a session keeps the record of claims. A session ends its lines at top level: no
thread waits for a key that is held by a thread that is itself waiting. -/
theorem recorded (e : Execution Machine.Starts (Machine.Follows body))
    (unblocked : ∀ i < e.length, (e.state i).step body = none → (e.state i).AtTop) {i : Nat}
    (hi : i ≤ e.length) : (e.state i).Recorded := by
  induction i with
  | zero =>
      obtain ⟨client, routine, hstart⟩ := e.starts
      rw [hstart]
      exact .starts (fun _ _ => rfl) Nat.one_pos routine
  | succ i ih =>
      have hm := ih (Nat.le_of_succ_le hi)
      have hgoes := e.goes i hi
      generalize e.state (i + 1) = m' at hgoes
      cases hgoes with
      | step made => exact hm.step made
      | line ended client routine => exact hm.line (unblocked i hi ended) client routine

/-- The record of claims mirrors the running passes, over every session in which no thread waits for
a key that is held by a blocked thread.

At every point the holders on record are those of the requests that are deriving a key: each key is
held once, on the thread that runs its builders, and nothing is held at top level. A request for a
key that can be derived is refused as a reentry if and only if the key has neither a value nor a
failure to replay, and is held on the same thread. A step takes a claim of a free key that has to be
derived, for the request that it starts to derive, gives the innermost claim back as it delivers the
outcome of the request, whatever it is, or leaves all claims as they are, and then it delivers no
outcome but of a request that has claimed nothing. -/
theorem claims_in_flight (e : Execution Machine.Starts (Machine.Follows body))
    (unblocked : ∀ i < e.length, (e.state i).step body = none → (e.state i).AtTop) :
    (∀ i ≤ e.length,
      (∀ c k t, (e.state i).world.holder c k = some t ↔ (c, k, t) ∈ (e.state i).held) ∧
      ((e.state i).held.map fun claim => (claim.1, claim.2.1)).Nodup ∧
      Aligned (e.state i).stack ∧
      ((e.state i).AtTop → ∀ c k, (e.state i).world.holder c k = none) ∧
      ∀ c k thread receiver cache, (e.state i).AsksFor c k thread receiver →
        (e.state i).world.cache? c = some cache → cache.owns k = true →
        cache.config.makeBuilder.isSome = true →
        ((e.state i).Refuses body c k receiver ↔ (e.state i).world.stored c k = none ∧
          (e.state i).world.replayable c k = none ∧ (c, k, thread) ∈ (e.state i).held)) ∧
    ∀ i < e.length,
      ((e.state (i + 1)).held = (e.state i).held ∧
        (∀ c k, (e.state (i + 1)).world.holder c k = (e.state i).world.holder c k) ∧
        ∀ c k r receiver, (e.state (i + 1)).focus = .deliver c k r receiver →
          ∃ thread, (e.state i).AsksFor c k thread receiver) ∨
      (∃ c k thread receiver, (e.state i).AsksFor c k thread receiver ∧
        (e.state i).world.holder c k = none ∧ (e.state i).world.stored c k = none ∧
        (e.state i).world.replayable c k = none ∧
        (e.state (i + 1)).held = (c, k, thread) :: (e.state i).held ∧
        (e.state (i + 1)).focus = .attempt ⟨c, k, thread, passLimit⟩ receiver ∧
        ∀ d l, (e.state (i + 1)).world.holder d l =
          if d = c ∧ l = k then some thread else (e.state i).world.holder d l) ∨
      ∃ (p : Pass K) (r : Outcome V) (receiver : Receiver K N V σ B),
        (e.state i).held = p.claim :: (e.state (i + 1)).held ∧
        (e.state (i + 1)).focus = .deliver p.cache p.key r receiver ∧
        ∀ d l, (e.state (i + 1)).world.holder d l =
          if d = p.cache ∧ l = p.key then none else (e.state i).world.holder d l := by
  refine ⟨fun i hi => ?_, fun i hi => ?_⟩
  · have hm := recorded e unblocked hi
    refine ⟨fun c k t => hm.holder_iff, hm.mirrors.once (), hm.threaded.aligned,
      fun htop c k => ?_, fun c k thread receiver cache hrequest hcache howns hbuilder =>
        hm.refuses_iff hcache howns hbuilder hrequest⟩
    rw [Option.eq_none_iff_forall_not_mem]
    intro t ht
    have hheld := hm.holder_iff.1 ht
    rw [Machine.held, htop.passes_eq_nil] at hheld
    simp at hheld
  · have hgoes := e.goes i hi
    have hended := unblocked i hi
    generalize e.state (i + 1) = m' at hgoes
    generalize e.state i = m at hgoes hended
    cases hgoes with
    | step made => exact (Posting.of_step made).claims
    | line ended client routine =>
        have hheld : m.held = [] := by rw [Machine.held, (hended ended).passes_eq_nil]; rfl
        exact Or.inl ⟨hheld.symm, fun _ _ => rfl, fun _ _ _ _ hfocus => by
          simp [Machine.start] at hfocus⟩

end Refusals

/-! ### Builders that come back to their own key -/

namespace BackToOwnKey

/-- There are builders, and no placeholders. -/
def config : Config Nat Nat Unit Unit where
  makeBuilder := some fun client => ((), client)

/-- The builder of `0` requests `1`, whose builder requests `0` again, and then `2` on a thread of
its own. -/
def body (_ : Unit) (_ : ContextId) (k : Nat) : Body Nat Unit Nat Unit Unit :=
  match k with
  | 0 => .get ⟨0⟩ 1 .done
  | 1 => .get ⟨0⟩ 0 fun _ => .race ⟨0⟩ 2 1 fun _ => .done (.ok 10)
  | _ => .done (.ok 20)

/-- The request of key `0`, in a world without anything in it. -/
def main : Machine Nat Unit Nat Unit Unit :=
  .start { client := () } (.perform (.newCache config) fun c => .get c 0 .done)

theorem main_runs : ∀ i < 23, ((main.run body i).step body).isSome = true := by
  decide +kernel

/-- The run of the request. -/
def session : Execution Machine.Starts (Machine.Follows body) :=
  main.runExecution 23 ⟨(), _, rfl⟩ (fun _ _ h => .step h) main_runs

/-- The second request for `0` is refused while the first one holds the key, the request for `2` is
made in the name of a thread of its own, and nothing is held at the end. -/
theorem session_claims :
    (∀ i < session.length, (session.state i).step body = none → (session.state i).AtTop) ∧
      (session.state 7).held = [(⟨0⟩, 1, .main), (⟨0⟩, 0, .main)] ∧
      (∃ receiver, (session.state 7).AsksFor ⟨0⟩ 0 .main receiver ∧
        (session.state 7).Refuses body ⟨0⟩ 0 receiver) ∧
      (session.state 12).world.holder ⟨0⟩ 2 = some ⟨1⟩ ∧
      ∀ c k, (session.state 23).world.holder c k = none := by
  have unblocked : ∀ i < session.length,
      (session.state i).step body = none → (session.state i).AtTop := by
    intro i hi hnone
    have hsome := main_runs i hi
    rw [show (main.run body i).step body = none from hnone] at hsome
    simp at hsome
  obtain ⟨hstates, -⟩ := claims_in_flight session unblocked
  obtain ⟨-, -, -, -, hrefuses⟩ := hstates 7 (by decide)
  obtain ⟨hholder, -⟩ := hstates 12 (by decide)
  obtain ⟨-, -, -, htop, -⟩ := hstates 23 (by decide)
  have hheld : (session.state 7).held = [(⟨0⟩, 1, .main), (⟨0⟩, 0, .main)] := by decide +kernel
  have hunpublished : (session.state 7).world.stored ⟨0⟩ 0 = none := by decide +kernel
  have hrequest : (session.state 7).AsksFor ⟨0⟩ 0 .main
      (.caller fun _ => .race ⟨0⟩ 2 1 fun _ => .done (.ok 10)) := .get _ rfl
  refine ⟨unblocked, hheld, ⟨_, hrequest, ?_⟩, ?_, htop ⟨rfl, _, rfl⟩⟩
  · refine (hrefuses _ _ _ _ _ hrequest rfl rfl rfl).2 ⟨hunpublished, rfl, ?_⟩
    rw [hheld]
    simp
  · refine (hholder _ _ _).2 ?_
    rw [show (session.state 12).held = [(⟨0⟩, 2, ⟨1⟩), (⟨0⟩, 1, .main), (⟨0⟩, 0, .main)] by
      decide +kernel]
    simp

end BackToOwnKey

end DerivationCache
