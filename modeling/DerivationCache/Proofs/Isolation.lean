import DerivationCache.Proofs.Exchange
import Mathlib.Data.List.Induction

/-!
# Isolation of caches

Builders that follow recipes, and plain collaborators, keep the caches of a world apart. Whatever is
done for one cache leaves the others alone. And a client that looks at one cache only cannot tell
that there are others: what it sees is what it would see alone, but for the numbers of new things.

These numbers are what makes the argument long, since all caches draw them from the same counters.
The things of a cache are listed in the order in which they were made (`World.Numbered`). A renaming
that gives them the numbers that they would have alone exists however the list goes on, so it can be
chosen at the end.

## Main results

* `World.Numbered.run`: a machine that works for a cache has a twin wherever it gets.
* `World.Divided.step`: a world stays divided among its caches with every exchange.
* `Transcript.divided`: so the worlds that a client gets to are divided among their caches.
-/

namespace DerivationCache

variable {K N V σ B : Type}

/-! ### Renamings that list things -/

/-- The listed things are given the numbers from zero on. -/
def Renaming.Lists (π : Renaming) (own : Kind → List ℕ) : Prop :=
  ∀ kind, (own kind).map (π kind) = List.range (own kind).length

/-- Any list of numbers can be renumbered in its own order. -/
theorem exists_perm_map_eq_range (l : List ℕ) (h : l.Nodup) :
    ∃ σ : Equiv.Perm ℕ, l.map σ = List.range l.length := by
  induction l using List.reverseRecOn with
  | nil => exact ⟨1, rfl⟩
  | append_singleton l a ih =>
      obtain ⟨hl, -, hdisjoint⟩ := List.nodup_append.1 h
      obtain ⟨σ, hσ⟩ := ih hl
      -- The last one trades its number for the next one in the list.
      refine ⟨Equiv.swap (σ a) l.length * σ, ?_⟩
      have hkept : l.map (Equiv.swap (σ a) l.length * σ) = l.map σ := by
        refine List.map_congr_left fun i hi => Equiv.swap_apply_of_ne_of_ne ?_ ?_
        · exact fun he => hdisjoint i hi a (List.mem_singleton_self a) (σ.injective he)
        · have hmem : σ i ∈ List.range l.length := hσ ▸ List.mem_map_of_mem hi
          exact (List.mem_range.1 hmem).ne
      rw [List.map_append, hkept, hσ, List.length_append, List.length_singleton, List.range_succ]
      simp

/-- So can the listed things of every kind. -/
theorem Renaming.exists_lists {own : Kind → List ℕ} (h : ∀ kind, (own kind).Nodup) :
    ∃ π : Renaming, π.Lists own := by
  choose π hπ using fun kind => exists_perm_map_eq_range (own kind) (h kind)
  exact ⟨π, hπ⟩

/-- What is listed first has the first numbers, and the rest those that follow. -/
theorem Renaming.Lists.append {π : Renaming} {own more : Kind → List ℕ}
    (h : π.Lists fun kind => own kind ++ more kind) : π.Lists own ∧
      ∀ kind, (more kind).map (π kind) =
        (List.range (more kind).length).map ((own kind).length + ·) := by
  have hparts (kind : Kind) := h kind
  simp only [List.map_append, List.length_append, List.range_add] at hparts
  have hsplit (kind : Kind) := List.append_inj (hparts kind) (by simp)
  exact ⟨fun kind => (hsplit kind).1, fun kind => (hsplit kind).2⟩

/-! ### Relations up to numbering -/

section Numbered

variable (S : Supply σ)

/-- Some things of the world are listed, and every renaming that gives them the numbers from zero on
relates the world to one where no more has been made. -/
def World.Numbered (w : World K N V σ B) (related : Renaming → World K N V σ B → Prop) : Prop :=
  ∃ own : Kind → List ℕ, (∀ kind, (own kind).Nodup ∧ ∀ i ∈ own kind, i < w.made S kind) ∧
    ∀ π : Renaming, π.Lists own → ∃ w', related π w' ∧ ∀ kind, w'.made S kind = (own kind).length

namespace World.Numbered

variable {S} {w w₁ : World K N V σ B} {related related₁ : Renaming → World K N V σ B → Prop}

/-- Some renaming relates the world to another one. -/
theorem exists_related (h : w.Numbered S related) : ∃ π w', related π w' := by
  obtain ⟨own, hown, hrelated⟩ := h
  obtain ⟨π, hπ⟩ := Renaming.exists_lists fun kind => (hown kind).1
  obtain ⟨w', hw', -⟩ := hrelated π hπ
  exact ⟨π, w', hw'⟩

/-- What is made meanwhile is listed at the end. -/
theorem grow (h : w.Numbered S related) (hmade : ∀ kind, w.made S kind ≤ w₁.made S kind)
    (hstep : ∀ π w', related π w' → π.Numbers S w w' w₁ → ∃ w₁', related₁ π w₁' ∧
      ∀ kind, w₁'.made S kind + w.made S kind = w'.made S kind + w₁.made S kind) :
    w₁.Numbered S related₁ := by
  obtain ⟨own, hown, hrelated⟩ := h
  refine ⟨fun kind => own kind ++ List.range' (w.made S kind) (w₁.made S kind - w.made S kind),
    fun kind => ⟨?_, fun i hi => ?_⟩, fun π hπ => ?_⟩
  · refine List.nodup_append.2 ⟨(hown kind).1, List.nodup_range', fun i hi j hj => ?_⟩
    have hold := (hown kind).2 i hi
    have hnew := (List.mem_range'_1.1 hj).1
    omega
  · have hle := hmade kind
    rcases List.mem_append.1 hi with hi | hi
    · exact ((hown kind).2 i hi).trans_le hle
    · have hlt := (List.mem_range'_1.1 hi).2
      omega
  · obtain ⟨hold, hnew⟩ := hπ.append
    obtain ⟨w', hw', hlength⟩ := hrelated π hold
    have hnumbers : π.Numbers S w w' w₁ := by
      intro kind j hj
      have hmap := hnew kind
      rw [List.length_range', List.range'_eq_map_range, List.map_map] at hmap
      rw [hlength kind]
      exact List.map_inj_left.1 hmap j (List.mem_range.2 (by omega))
    obtain ⟨w₁', hw₁', hpaced⟩ := hstep π w' hw' hnumbers
    refine ⟨w₁', hw₁', fun kind => ?_⟩
    have hle := hmade kind
    have hpace := hpaced kind
    rw [hlength kind] at hpace
    rw [List.length_append, List.length_range']
    omega

/-- What is made for others is not listed, and gets none of the first numbers. -/
theorem apart (h : w.Numbered S related) (hmade : ∀ kind, w.made S kind ≤ w₁.made S kind)
    (hstep : ∀ π w', related π w' →
      (∀ i, w.cells.size ≤ i → w'.cells.size ≤ π .cell i) → related₁ π w') :
    w₁.Numbered S related₁ := by
  obtain ⟨own, hown, hrelated⟩ := h
  refine ⟨own, fun kind => ⟨(hown kind).1, fun i hi => ?_⟩, fun π hπ => ?_⟩
  · exact ((hown kind).2 i hi).trans_le (hmade kind)
  · obtain ⟨w', hw', hlength⟩ := hrelated π hπ
    refine ⟨w', hstep π w' hw' fun i hi => ?_, hlength⟩
    by_contra hlt
    have hmem : π .cell i ∈ (own .cell).map (π .cell) := by
      rw [hπ .cell, List.mem_range, ← hlength .cell]
      exact not_le.1 hlt
    obtain ⟨j, hj, hij⟩ := List.mem_map.1 hmem
    obtain rfl := (π .cell).injective hij
    exact absurd ((hown .cell).2 j hj) (not_lt.2 hi)

/-- The relation may be weakened. -/
theorem imp (h : w.Numbered S related) (himp : ∀ π w', related π w' → related₁ π w') :
    w.Numbered S related₁ :=
  h.apart (fun _ => le_rfl) fun π w' hw' _ => himp π w' hw'

end World.Numbered

end Numbered

/-! ### Runs -/

section Runs

variable [DecidableEq K] [DecidableEq N] [BEq V] [MulAction Renaming V] [RenamesAlike V]
  [ToString K] {S : Supply σ} {recipe : B → K → Recipe K V} {c : CacheId}

section Machine

omit [MulAction Renaming V] [RenamesAlike V]

namespace Machine

variable {body : B → ContextId → K → Body K N V σ B} {w : World K N V σ B}

/-- An operation on a cache that was never made does not begin. -/
theorem run_get_of_none {c : CacheId} (h : w.cache? c = none) (k : K)
    (next : Except RequestError V → Body K N V σ B) (n : ℕ) :
    (start w (.get c k next)).run body n = start w (.get c k next) :=
  run_of_step_eq_none (by simp [step, stepRun, start, World.onCache, h, bind]) n

/-- Nor does a race on it. -/
theorem run_race_of_none {c : CacheId} (h : w.cache? c = none) (k : K) (threads : ℕ)
    (next : List (Outcome V) → Body K N V σ B) (n : ℕ) :
    (start w (.race c k threads next)).run body n = start w (.race c k threads next) :=
  run_of_step_eq_none (by simp [step, stepRun, start, World.onCache, h, bind]) n

/-- A request in a context that was never made is not answered. -/
theorem run_build_of_none (body : B → ContextId → K → Body K N V σ B) {x : ContextId}
    (h : w.context? x = none) (k : K) (next : Except RequestError (Option V) → Body K N V σ B)
    (n : ℕ) : (start w (.build x k next)).run body n = start w (.build x k next) ∨
      (start w (.build x k next)).run body n = ⟨w, .ask x k (.routine next), []⟩ := by
  cases n with
  | zero => exact Or.inl rfl
  | succ n =>
      refine Or.inr ?_
      have made : (start w (.build x k next)).step body =
          some ⟨w, .ask x k (.routine next), []⟩ := rfl
      rw [run_of_step_eq_some made]
      exact run_of_step_eq_none (by simp [step, stepAsk, World.lookup, h, bind]) n

/-- A request is answered at once, or never. -/
theorem run_perform (body : B → ContextId → K → Body K N V σ B) (w : World K N V σ B)
    (r : Request K N V σ B) (n : ℕ) :
    ((start w (.perform r fun _ => .halt)).run body n).world = w ∨ ∃ a,
      w.answer r = some (a, ((start w (.perform r fun _ => .halt)).run body n).world) := by
  cases n with
  | zero => exact Or.inl rfl
  | succ n =>
      cases hanswer : w.answer r with
      | none =>
          have hstuck : (start w (.perform r fun _ => .halt)).step body = none := by
            simp [step, stepRun, start, hanswer, bind]
          rw [run_of_step_eq_none hstuck]
          exact Or.inl rfl
      | some p =>
          have made : (start w (.perform r fun _ => .halt)).step body =
              some ⟨p.2, .run .halt, []⟩ := by
            simp [step, stepRun, start, hanswer, bind, move]
          rw [run_of_step_eq_some made, run_of_step_eq_none rfl]
          exact Or.inr ⟨p.1, rfl⟩

end Machine

end Machine

/-- A machine that works for a cache spares all else, and has a twin wherever it gets. -/
theorem World.Numbered.run (hrecipe : ∀ π b k, (recipe b k).Renamed π (recipe b k)) (n : ℕ)
    {m : Machine K N V σ B} {origin : Renaming → Machine K N V σ B → Prop}
    (h : m.world.Numbered S fun π w' => ∃ m', origin π m' ∧ m.Twin S π c m' ∧ m'.world = w')
    (hplain : m.world.Plain) :
    m.world.Spares S (some c) (m.run (Recipe.builders S recipe) n).world ∧
      (m.run (Recipe.builders S recipe) n).world.Numbered S fun π w' => ∃ m' n', origin π m' ∧
        (m.run (Recipe.builders S recipe) n).Twin S π c (m'.run (Recipe.builders S recipe) n') ∧
        (m'.run (Recipe.builders S recipe) n').world = w' := by
  induction n generalizing m origin with
  | zero =>
      exact ⟨.refl _,
        h.imp fun π w' ⟨m', horigin, htwin, hw'⟩ => ⟨m', 0, horigin, htwin, hw'⟩⟩
  | succ n ih =>
      cases made : m.step (Recipe.builders S recipe) with
      | none =>
          rw [Machine.run_of_step_eq_none made]
          exact ⟨.refl _,
            h.imp fun π w' ⟨m', horigin, htwin, hw'⟩ => ⟨m', 0, horigin, htwin, hw'⟩⟩
      | some m₁ =>
          obtain ⟨π, -, m', -, htwin, -⟩ := h.exists_related
          have hspares := (htwin.echoes hplain (hrecipe π) made).spares
          have h₁ : m₁.world.Numbered S fun π w₁' => ∃ m₁',
              (∃ m', origin π m' ∧ m'.step (Recipe.builders S recipe) = some m₁') ∧
                m₁.Twin S π c m₁' ∧ m₁'.world = w₁' := by
            refine h.grow hspares.made fun π w' ⟨m', horigin, htwin, hw'⟩ hπ => ?_
            subst hw'
            obtain ⟨m₁', made', hcopies⟩ := (htwin.echoes hplain (hrecipe π) made).echo hπ
            exact ⟨m₁'.world, ⟨m₁', ⟨m', horigin, made'⟩, hcopies.twin, rfl⟩, hcopies.paced⟩
          obtain ⟨hspares₁, hnumbered⟩ := ih h₁ (hspares.plain hplain)
          rw [Machine.run_of_step_eq_some made]
          refine ⟨hspares.trans hspares₁, hnumbered.imp fun π w' => ?_⟩
          rintro ⟨m₁', n', ⟨m', horigin, made'⟩, htwin₁, hw'⟩
          have hrun' := Machine.run_of_step_eq_some made' n'
          exact ⟨m', n' + 1, horigin, hrun' ▸ htwin₁, hrun' ▸ hw'⟩

/-! ### Worlds that are divided among their caches -/

variable (S recipe) in
/-- A cache of this configuration has the same exchanges alone as in the log, and is found to be the
image of the cache afterwards. -/
structure Alone (client : σ) (config : Config K V σ B)
    (log : List (Option CacheId × Exchange K N V σ B)) (w : World K N V σ B) (c : CacheId)
    (π : Renaming) (w' : World K N V σ B) : Prop where
  first : π • c = ⟨0⟩
  transcript : Transcript (Recipe.builders S recipe)
    (({ client } : World K N V σ B).newCache config).2
    ((log.filter fun p => p.1 = some c).map (π • ·)) w'
  image : w.Image π c w'

namespace Alone

variable {client : σ} {config : Config K V σ B} {log : List (Option CacheId × Exchange K N V σ B)}
  {w w' w₁ w₁' : World K N V σ B} {π : Renaming} {x : Exchange K N V σ B}

omit [RenamesAlike V]

/-- One more exchange with the cache takes place alone as well. -/
theorem snoc (h : Alone S recipe client config log w c π w') (ht : w.addressee x = some c)
    (hx : (π • x).Occurs (Recipe.builders S recipe) w' w₁') (himage : w₁.Image π c w₁') :
    Alone S recipe client config (log ++ [(w.addressee x, x)]) w₁ c π w₁' where
  first := h.first
  transcript := by
    have hnext := h.transcript.snoc hx
    rw [h.image.addressee ht] at hnext
    rw [List.filter_append, ht]
    simpa using hnext
  image := himage

/-- An exchange with another cache does not. -/
theorem skip (h : Alone S recipe client config log w c π w') (ht : w.addressee x ≠ some c)
    (himage : w₁.Image π c w') :
    Alone S recipe client config (log ++ [(w.addressee x, x)]) w₁ c π w' where
  first := h.first
  transcript := by
    rw [List.filter_append, List.filter_singleton]
    simpa [ht] using h.transcript
  image := himage

end Alone

variable (S recipe) in
/-- After these exchanges, all contexts belong to caches, and each cache is as it would be alone. -/
structure World.Divided (client : σ) (log : List (Option CacheId × Exchange K N V σ B))
    (w : World K N V σ B) : Prop where
  plain : w.Plain
  parents : ∀ x context, w.context? x = some context →
    ∃ c cache, context.parent = some c ∧ w.cache? c = some cache
  noted : ∀ p ∈ log, ∀ c, p.1 = some c → ∃ cache, w.cache? c = some cache
  threads : 1 ≤ w.threads
  failures : S.next client ≤ S.next w.client
  alone : ∀ c cache, w.cache? c = some cache →
    w.Numbered S (Alone S recipe client cache.config log w c)

namespace World.Divided

variable {client : σ} {log : List (Option CacheId × Exchange K N V σ B)} {w w₁ : World K N V σ B}
  {cache : Cache K V σ B} {x : Exchange K N V σ B}

omit [RenamesAlike V] in
/-- In a world without anything in it there is nothing to tell apart. -/
theorem init (client : σ) :
    ({ client } : World K N V σ B).Divided S recipe client [] where
  plain := ⟨fun c cache hc => by simp [cache?] at hc,
    fun x context f hx => by simp [context?] at hx,
    fun r registry hr => by simp at hr⟩
  parents x context hx := by simp [context?] at hx
  noted p hp := by simp at hp
  threads := le_rfl
  failures := le_rfl
  alone c cache hc := by simp [cache?] at hc

/-- An operation of a cache spares all else, and has a twin. -/
theorem run (h : w.Divided S recipe client log)
    (hrecipe : ∀ π b k, (recipe b k).Renamed π (recipe b k)) (hc : w.cache? c = some cache)
    {b : Body K N V σ B} {b' : Renaming → Body K N V σ B}
    (htwin : ∀ π w', w.Image π c w' →
      Machine.Twin S π c (.start w b) (.start w' (b' π))) (n : ℕ) :
    w.Spares S (some c) (Machine.run (Recipe.builders S recipe) n (.start w b)).world ∧
      World.Numbered S (Machine.run (Recipe.builders S recipe) n (.start w b)).world
        fun π w₁' => ∃ w' n', Alone S recipe client cache.config log w c π w' ∧
          Machine.Twin S π c (Machine.run (Recipe.builders S recipe) n (.start w b))
            (Machine.run (Recipe.builders S recipe) n' (.start w' (b' π))) ∧
          (Machine.run (Recipe.builders S recipe) n' (.start w' (b' π))).world = w₁' := by
  have hstart : World.Numbered S (Machine.start w b).world fun π w' => ∃ m',
      (∃ w', Alone S recipe client cache.config log w c π w' ∧ m' = .start w' (b' π)) ∧
        (Machine.start w b).Twin S π c m' ∧ m'.world = w' :=
    (h.alone c cache hc).imp fun π w' halone =>
      ⟨_, ⟨w', halone, rfl⟩, htwin π w' halone.image, rfl⟩
  obtain ⟨hspares, hnumbered⟩ := hstart.run hrecipe n h.plain
  refine ⟨hspares, hnumbered.imp fun π w₁' => ?_⟩
  rintro ⟨-, n', ⟨w', halone, rfl⟩, htwin', hw₁'⟩
  exact ⟨w', n', halone, htwin', hw₁'⟩

omit [RenamesAlike V] in
/-- Every context is one of a cache that exists. -/
theorem cache_of_parent (h : w.Divided S recipe client log) {y : ContextId}
    (hy : w.parent? y = some c) : ∃ cache, w.cache? c = some cache := by
  obtain ⟨context, hcontext, hparent⟩ := parent?_eq_some hy
  obtain ⟨d, cache, hd, hcache⟩ := h.parents y context hcontext
  obtain rfl := Option.some.inj (hparent.symm.trans hd)
  exact ⟨cache, hcache⟩

omit [RenamesAlike V] in
/-- A context without a parent does not exist. -/
theorem context_of_parent (h : w.Divided S recipe client log) {y : ContextId}
    (hy : w.parent? y = none) : w.context? y = none := by
  cases hcontext : w.context? y with
  | none => rfl
  | some context =>
      obtain ⟨d, cache, hd, -⟩ := h.parents y context hcontext
      rw [parent?_of_context? hcontext, hd] at hy
      simp at hy

omit [RenamesAlike V] in
/-- Requests that are addressed to no cache leave those that exist alone. -/
theorem extends_of_answer (h : w.Divided S recipe client log) {r : Request K N V σ B}
    (hr : r.Plain) (ht : w.target r = none) {a : r.Answer} (hw : w.answer r = some (a, w₁)) :
    w.Extends S w₁ := by
  refine World.answer_extends h.plain (fun y context hy hnone => ?_) hr ht hw
  obtain ⟨d, -, hd, -⟩ := h.parents y context hy
  rw [hnone] at hd
  simp at hd

/-- Whatever is done spares all but the addressee, at any moment. -/
theorem run_spares (h : w.Divided S recipe client log)
    (hrecipe : ∀ π b k, (recipe b k).Renamed π (recipe b k)) (hx : x.Plain) (n : ℕ) :
    ∃ t, w.Spares S t (Machine.run (Recipe.builders S recipe) n (.start w x.routine)).world ∧
      ∀ c, t = some c → w.addressee x = some c ∨ w.cache? c = none := by
  have hkept {w₁ : World K N V σ B} (hw₁ : w₁ = w) : ∃ t, w.Spares S t w₁ ∧
      ∀ c, t = some c → w.addressee x = some c ∨ w.cache? c = none := by
    subst hw₁
    exact ⟨none, .refl _, fun c hc => by simp at hc⟩
  have hbuilds (y : ContextId) (k : K) (hy : w.addressee x = w.parent? y) :
      ∃ t, w.Spares S t (Machine.run (Recipe.builders S recipe) n
          (.start w (.build y k fun _ => .halt))).world ∧
        ∀ c, t = some c → w.addressee x = some c ∨ w.cache? c = none := by
    cases hparent : w.parent? y with
    | none =>
        have hnone := h.context_of_parent hparent
        rcases Machine.run_build_of_none (Recipe.builders S recipe) hnone k
          (fun _ => .halt) n with hrun | hrun
        · exact hkept (congrArg Machine.world hrun)
        · exact hkept (congrArg Machine.world hrun)
    | some c =>
        obtain ⟨cache, hc⟩ := h.cache_of_parent hparent
        exact ⟨some c, (h.run hrecipe hc (fun π w' himage => .build himage hparent k) n).1,
          fun d hd => Or.inl (by rw [hy, hparent, hd])⟩
  cases x with
  | request r a =>
      rcases Machine.run_perform (Recipe.builders S recipe) w r n with
        hrun | ⟨a', hanswer⟩
      · exact hkept hrun
      · cases ht : w.target r with
        | none =>
            obtain ⟨t, hspares, hfresh⟩ := (h.extends_of_answer hx ht hanswer).spares
            exact ⟨t, hspares, fun c hc => Or.inr (hfresh c hc)⟩
        | some c =>
            exact ⟨some c, World.answer_spares h.plain hx ht hanswer,
              fun d hd => Or.inl (ht.trans hd)⟩
  | got c k outcome =>
      cases hc : w.cache? c with
      | none => exact hkept (congrArg Machine.world (Machine.run_get_of_none hc k _ n))
      | some cache =>
          exact ⟨some c, (h.run hrecipe hc (fun π w' himage => .get himage k) n).1,
            fun d hd => Or.inl hd⟩
  | raced c k threads outcomes =>
      cases hc : w.cache? c with
      | none => exact hkept (congrArg Machine.world (Machine.run_race_of_none hc k threads _ n))
      | some cache =>
          exact ⟨some c, (h.run hrecipe hc (fun π w' himage => .race himage k threads) n).1,
            fun d hd => Or.inl hd⟩
  | built y k answer => exact hbuilds y k rfl
  | broken y k message => exact hbuilds y k rfl
  | inspected c found => exact hkept (congrArg Machine.world (Machine.run_of_step_eq_none rfl n))
  | inspectedContext y found =>
      exact hkept (congrArg Machine.world (Machine.run_of_step_eq_none rfl n))

/-! ### One more exchange -/

omit [RenamesAlike V] in
/-- An exchange that is addressed to a cache finds it. -/
theorem found (h : w.Divided S recipe client log)
    (hw : x.Occurs (Recipe.builders S recipe) w w₁) (ht : w.addressee x = some c) :
    ∃ cache, w.cache? c = some cache := by
  rw [← Option.isSome_iff_exists, Option.isSome_iff_ne_none]
  intro hnone
  cases hw with
  | request answer =>
      rcases World.target_exists ht answer with ⟨cache, hc⟩ | ⟨y, hy⟩
      · simp [hnone] at hc
      · obtain ⟨cache, hc⟩ := h.cache_of_parent hy
        simp [hnone] at hc
  | got fuel delivered =>
      obtain rfl := Option.some.inj ht
      rw [Machine.run_get_of_none hnone] at delivered
      simp [Machine.start] at delivered
  | raced fuel delivered =>
      obtain rfl := Option.some.inj ht
      rw [Machine.run_race_of_none hnone] at delivered
      simp [Machine.start] at delivered
  | inspected found =>
      obtain rfl := Option.some.inj ht
      simp [hnone] at found
  | _ =>
      obtain ⟨cache, hc⟩ := h.cache_of_parent ht
      simp [hnone] at hc

omit [RenamesAlike V] in
/-- An exchange that is addressed to none adds to the world at most. -/
theorem extends_of_occurs (h : w.Divided S recipe client log)
    (hw : x.Occurs (Recipe.builders S recipe) w w₁) (hx : x.Plain) (ht : w.addressee x = none) :
    w.Extends S w₁ := by
  cases hw with
  | request answer => exact h.extends_of_answer hx ht answer
  | got fuel delivered => simp [World.addressee] at ht
  | raced fuel delivered => simp [World.addressee] at ht
  | built fuel delivered =>
      rename_i y k answer
      rcases Machine.run_build_of_none (Recipe.builders S recipe) (h.context_of_parent ht)
        k (fun _ => .halt) fuel with hrun | hrun
      · rw [hrun] at delivered
        simp [Machine.start] at delivered
      · rw [hrun] at delivered
        simp at delivered
  | broken fuel delivered =>
      rename_i y k message
      rcases Machine.run_build_of_none (Recipe.builders S recipe) (h.context_of_parent ht)
        k (fun _ => .halt) fuel with hrun | hrun
      · rw [hrun] at delivered
        simp [Machine.start] at delivered
      · rw [hrun] at delivered
        simp at delivered
  | inspected found => simp [World.addressee] at ht
  | inspectedContext found =>
      rw [h.context_of_parent ht] at found
      simp at found

/-- An exchange that is addressed to a cache takes place alone as well. -/
theorem occurs_alone (h : w.Divided S recipe client log)
    (hrecipe : ∀ π b k, (recipe b k).Renamed π (recipe b k))
    (hw : x.Occurs (Recipe.builders S recipe) w w₁) (hx : x.Plain) (ht : w.addressee x = some c)
    (hc : w.cache? c = some cache) :
    w.Spares S (some c) w₁ ∧
      w₁.Numbered S (Alone S recipe client cache.config (log ++ [(w.addressee x, x)]) w₁ c) := by
  have hbuilds {y : ContextId} {k : K} {fuel : ℕ} {m : Machine K N V σ B}
      (hparent : w.parent? y = some c)
      (ended : Machine.run (Recipe.builders S recipe) fuel
        (.start w (.build y k fun _ => .halt)) = m)
      (hoccurs : ∀ π w' n m', Machine.Twin S π c m m' → Machine.run (Recipe.builders S recipe) n
        (.start w' (.build (π • y) k fun _ => .halt)) = m' →
          (π • x).Occurs (Recipe.builders S recipe) w' m'.world) :
      w.Spares S (some c) m.world ∧ m.world.Numbered S
        (Alone S recipe client cache.config (log ++ [(w.addressee x, x)]) m.world c) := by
    obtain ⟨hspares, hnumbered⟩ :=
      h.run hrecipe hc (fun π w' himage => .build himage hparent k) fuel
    rw [ended] at hspares hnumbered
    refine ⟨hspares, hnumbered.imp fun π w₁' => ?_⟩
    rintro ⟨w', n', halone, htwin, rfl⟩
    exact halone.snoc ht (hoccurs π w' n' _ htwin rfl) htwin.image
  cases hw with
  | request answer =>
      have hspares := World.answer_spares (S := S) h.plain hx ht answer
      refine ⟨hspares, (h.alone c cache hc).grow hspares.made fun π w' halone hπ => ?_⟩
      obtain ⟨w₁', hanswer', hmimics⟩ := halone.image.answer h.plain ht answer hπ
      exact ⟨w₁', halone.snoc ht (.request hanswer') hmimics.image, hmimics.paced⟩
  | got fuel delivered =>
      rename_i d k outcome
      obtain rfl := Option.some.inj ht
      obtain ⟨hspares, hnumbered⟩ := h.run hrecipe hc (fun π w' himage => .get himage k) fuel
      rw [delivered] at hspares hnumbered
      refine ⟨hspares, hnumbered.imp fun π w₁' => ?_⟩
      rintro ⟨w', n', halone, htwin, rfl⟩
      exact halone.snoc rfl (.got n' htwin.delivered) htwin.image
  | raced fuel delivered =>
      rename_i d k threads outcomes
      obtain rfl := Option.some.inj ht
      obtain ⟨hspares, hnumbered⟩ :=
        h.run hrecipe hc (fun π w' himage => .race himage k threads) fuel
      rw [delivered] at hspares hnumbered
      refine ⟨hspares, hnumbered.imp fun π w₁' => ?_⟩
      rintro ⟨w', n', halone, htwin, rfl⟩
      exact halone.snoc rfl (.raced n' htwin.woken) htwin.image
  | built fuel delivered =>
      refine hbuilds ht delivered fun π w' n m' htwin hrun => ?_
      subst hrun
      exact .built n htwin.replied
  | broken fuel delivered =>
      refine hbuilds ht delivered fun π w' n m' htwin hrun => ?_
      subst hrun
      exact .broken n htwin.panicked
  | inspected found =>
      obtain rfl := Option.some.inj ht
      obtain rfl := Option.some.inj (hc.symm.trans found)
      refine ⟨.refl w, (h.alone _ cache hc).imp fun π w' halone => ?_⟩
      obtain ⟨cache', hcache, hcache'⟩ := halone.image.cache
      obtain rfl := Option.some.inj (hc.symm.trans hcache)
      exact halone.snoc rfl (.inspected hcache') halone.image
  | inspectedContext found =>
      refine ⟨.refl w, (h.alone c cache hc).imp fun π w' halone => ?_⟩
      have hparent : w.parent? _ = some c := ht
      rw [parent?_of_context? found] at hparent
      exact halone.snoc ht (.inspectedContext (halone.image.contexts _ _ found hparent))
        halone.image

omit [RenamesAlike V] in
/-- A cache that has just been made has a world with nothing else for its image. -/
theorem image_of_new (h : w.Divided S recipe client log) (hextends : w.Extends S w₁)
    (hc : w.cache? c = none) {config : Config K V σ B}
    (hc₁ : w₁.cache? c = some (.ofConfig config)) {π : Renaming} (hmain : π .thread 0 = 0)
    (hfirst : π .cache c.index = 0) :
    w₁.Image π c (({ client } : World K N V σ B).newCache config).2 := by
  have holder {y : ContextId} {context : Context K V σ B} (hy : w₁.context? y = some context) :
      ∃ d cache, context.parent = some d ∧ w.cache? d = some cache :=
    h.parents y context (by rwa [World.context?, hextends.contexts] at hy)
  refine ⟨congrArg ThreadId.mk hmain, ⟨_, hc₁, ?_⟩, fun y context hy hparent => ?_,
    fun g hg => absurd hg (Nat.not_lt_zero _), fun t g hissued => ?_⟩
  · have hid : π • c = (({ client } : World K N V σ B).newCache config).1 :=
      congrArg CacheId.mk hfirst
    rw [cache?_newCache, if_pos hid, Cache.smul_ofConfig]
  · obtain ⟨d, cache, hd, hcache⟩ := holder hy
    obtain rfl := Option.some.inj (hparent.symm.trans hd)
    simp [hc] at hcache
  · obtain ⟨y, context, k, p, hy, hparent, -⟩ := id hissued
    obtain ⟨d, cache, hd, hcache⟩ := holder hy
    obtain ⟨π', w', halone⟩ := (h.alone d cache hcache).exists_related
    obtain ⟨hlt, -⟩ := halone.image.issued t g ((World.issued_congr hextends.contexts).1 hissued)
    obtain ⟨t', hspares, -⟩ := hextends.spares
    refine ⟨hlt.trans_le (hspares.made .cell), iff_of_false ?_ (Nat.not_lt_zero _)⟩
    rintro rfl
    obtain rfl := Option.some.inj (hparent.symm.trans hd)
    simp [hc] at hcache

omit [RenamesAlike V] in
/-- It is as it would be alone. -/
theorem alone_of_new (h : w.Divided S recipe client log) (hextends : w.Extends S w₁)
    (ht : w.addressee x = none) (hc : w.cache? c = none) {config : Config K V σ B}
    (hc₁ : w₁.cache? c = some (.ofConfig config)) :
    w₁.Numbered S (Alone S recipe client config (log ++ [(w.addressee x, x)]) w₁ c) := by
  obtain ⟨t, hspares, -⟩ := hextends.spares
  refine ⟨fun
    | .cache => [c.index]
    | .thread => [0]
    | .failure => List.range (S.next client)
    | _ => [], fun kind => ⟨?_, fun i hi => ?_⟩, fun π hπ => ?_⟩
  · cases kind <;> simp [List.nodup_range]
  · cases kind with
    | cache =>
        obtain rfl := List.mem_singleton.1 hi
        exact (Array.getElem?_eq_some_iff.1 hc₁).1
    | thread =>
        obtain rfl := List.mem_singleton.1 hi
        exact h.threads.trans (hspares.made .thread)
    | failure => exact (List.mem_range.1 hi).trans_le (h.failures.trans (hspares.made .failure))
    | context => simp at hi
    | cell => simp at hi
  · have hmain : π .thread 0 = 0 := by simpa using hπ .thread
    have hfirst : π .cache c.index = 0 := by simpa using hπ .cache
    have hnone : (log ++ [(w.addressee x, x)]).filter (fun p => p.1 = some c) = [] := by
      refine List.filter_eq_nil_iff.2 fun p hp => ?_
      rw [decide_eq_true_eq]
      intro hpc
      rcases List.mem_append.1 hp with hp | hp
      · obtain ⟨cache, hcache⟩ := h.noted p hp c hpc
        simp [hc] at hcache
      · obtain rfl := List.mem_singleton.1 hp
        simp [ht] at hpc
    refine ⟨_, ⟨congrArg CacheId.mk hfirst, by rw [hnone]; exact .nil,
      h.image_of_new hextends hc hc₁ hmain hfirst⟩, fun kind => ?_⟩
    cases kind with
    | failure => exact List.length_range.symm
    | _ => rfl

/-- A world stays divided among its caches with every exchange. -/
theorem step (h : w.Divided S recipe client log)
    (hrecipe : ∀ π b k, (recipe b k).Renamed π (recipe b k))
    (hw : x.Occurs (Recipe.builders S recipe) w w₁) (hx : x.Plain) :
    w₁.Divided S recipe client (log ++ [(w.addressee x, x)]) := by
  have hgrows : w.Grows w₁ :=
    hw.invariant (P := w.Grows) (fun made hm => hm.trans (Machine.grows_of_step made)) (.refl w)
  have hnoted : ∀ p ∈ log ++ [(w.addressee x, x)], ∀ d, p.1 = some d →
      ∃ cache, w₁.cache? d = some cache := by
    intro p hp d hd
    have hold : ∃ cache, w.cache? d = some cache := by
      rcases List.mem_append.1 hp with hp | hp
      · exact h.noted p hp d hd
      · obtain rfl := List.mem_singleton.1 hp
        exact h.found hw hd
    obtain ⟨cache, hcache⟩ := hold
    exact (hgrows.caches d cache hcache).imp fun _ hcache => hcache.1
  -- A cache that is not addressed skips the exchange in the run that it has to itself.
  have hother {t : Option CacheId} (hspares : w.Spares S t w₁) {d : CacheId}
      {cache : Cache K V σ B} (hd : w.cache? d = some cache) (ht : t ≠ some d)
      (haddressee : w.addressee x ≠ some d) : w₁.Numbered S
        (Alone S recipe client cache.config (log ++ [(w.addressee x, x)]) w₁ d) :=
    (h.alone d cache hd).apart hspares.made fun π w' halone hfresh =>
      halone.skip haddressee (halone.image.apart hspares ht hfresh)
  rcases Option.eq_none_or_eq_some (w.addressee x) with ht | ⟨c, ht⟩
  -- Without an addressee the world is only extended, by one new cache at most.
  · have hextends := h.extends_of_occurs hw hx ht
    obtain ⟨t, hspares, hfresh⟩ := hextends.spares
    refine ⟨hspares.plain h.plain, fun y context hy => ?_, hnoted,
      h.threads.trans (hspares.made .thread), h.failures.trans (hspares.made .failure),
      fun d cache hd => ?_⟩
    · rw [World.context?, hextends.contexts] at hy
      obtain ⟨d, cache, hd, hcache⟩ := h.parents y context hy
      obtain ⟨cache₁, hcache₁, -⟩ := hgrows.caches d cache hcache
      exact ⟨d, cache₁, hd, hcache₁⟩
    · rcases hextends.caches d cache hd with hold | ⟨hnone, config, rfl⟩
      · refine hother hspares hold (fun he => ?_) (by simp [ht])
        simp [hfresh d he] at hold
      · exact h.alone_of_new hextends ht hnone hd
  · obtain ⟨cache, hc⟩ := h.found hw ht
    obtain ⟨hspares, hnumbered⟩ := h.occurs_alone hrecipe hw hx ht hc
    obtain ⟨cache₁, hc₁, hconfig⟩ := hgrows.caches c cache hc
    refine ⟨hspares.plain h.plain, fun y context hy => ?_, hnoted,
      h.threads.trans (hspares.made .thread), h.failures.trans (hspares.made .failure),
      fun d cache' hd => ?_⟩
    · by_cases hparent : context.parent = some c
      · exact ⟨c, cache₁, hparent, hc₁⟩
      · obtain ⟨d, cache', hd, hcache'⟩ :=
          h.parents y context ((hspares.contexts y context hparent).1 hy)
        obtain ⟨cache'', hcache'', -⟩ := hgrows.caches d cache' hcache'
        exact ⟨d, cache'', hd, hcache''⟩
    · by_cases hdc : d = c
      · subst hdc
        obtain rfl := Option.some.inj (hc₁.symm.trans hd)
        rw [hconfig]
        exact hnumbered
      · have hne : some d ≠ some c := fun he => hdc (Option.some.inj he)
        exact hother hspares ((hspares.caches d cache' hne).1 hd) hne.symm (ht ▸ hne.symm)

end World.Divided

/-- The worlds that a client gets to are divided among their caches. -/
theorem Transcript.divided (hrecipe : ∀ π b k, (recipe b k).Renamed π (recipe b k)) {client : σ}
    {log : List (Option CacheId × Exchange K N V σ B)} {w : World K N V σ B}
    (h : Transcript (Recipe.builders S recipe) { client } log w) (hplain : ∀ p ∈ log, p.2.Plain) :
    w.Divided S recipe client log := by
  induction h with
  | nil => exact .init client
  | snoc before occurs ih =>
      exact (ih fun p hp => hplain p (List.mem_append_left _ hp)).step hrecipe occurs
        (hplain _ (List.mem_append_right _ (List.mem_singleton_self _)))

end Runs

end DerivationCache
