import DerivationCache.Proofs.BuilderShape
import Mathlib.Data.Set.Card
import Mathlib.Logic.Relation

/-!
# A pass as a search

Let every builder request the dependencies of its key in order. Then a pass searches the
dependency graph depth first, cut off at the published keys (`OpenEdge`), and the entries of its
context say how far it has come: a key without an entry has not been seen, one in flight is on the
way from the root to the key that is being derived, and one with a value is done.

What holds at every moment is said in two parts: of the entries (`Explored`), and of the machines
that the pass has gone through (`Logged`). There is one lemma for each thing that can happen next.
Without a way to make placeholders a search is given up at the first key that is met again on the
way from the root, so every key that is done is on no cycle.

## Main results

* `Explored.mark`, `Explored.resolve`: what is known when an entry is written.
* `Explored.resolved_iff`: a search that is over has derived exactly the keys that the root reaches.
* `Logged.call`, `Logged.issue`, `Logged.idle`: what is called in one step more.
* `Search.answers`: a request of a search is answered, unless it meets a cycle.
-/

namespace DerivationCache

open Relation

variable {K N V σ B : Type} [DecidableEq K]

/-- One unpublished key depends on another. -/
def OpenEdge (store : Table K V) (deps : K → List K) (k d : K) : Prop :=
  store.get? k = none ∧ d ∈ deps k ∧ store.get? d = none

instance (store : Table K V) (deps : K → List K) (k d : K) : Decidable (OpenEdge store deps k d) :=
  inferInstanceAs (Decidable (_ ∧ _ ∧ _))

/-! ### How far a search has come -/

namespace PassSetting

variable (s : PassSetting K V σ B) (deps : K → List K)

/-- One key depends on another, and the pass has to derive both. -/
def Edge (k d : K) : Prop := OpenEdge s.cache.store deps k d

/-- The key has been dealt with: it was seen, and without placeholders it is done. -/
def Discovered (entries : Table K (Entry V)) (k : K) : Prop :=
  (entries.get? k).isSome = true ∧
    (s.placeholders = none → ∃ v, entries.get? k = some (.resolved v))

/-- The keys in flight are those whose builders are running. -/
def Suspended (entries : Table K (Entry V)) (stack : List (Frame K N V σ B)) : Prop :=
  ∀ k, (s.contextWith entries).InFlight k ↔
    ∃ frame ∈ stack, frame.context = s.context ∧ frame.key = k

/-- There is a way to this key from every key whose builder is running. -/
def Leads (stack : List (Frame K N V σ B)) (k : K) : Prop :=
  ∀ frame ∈ stack, frame.context = s.context → TransGen (s.Edge deps) frame.key k

end PassSetting

/-- Nothing that was known is lost. -/
def Advances (entries entries' : Table K (Entry V)) : Prop :=
  ∀ k e, entries.get? k = some e →
    ∃ e', entries'.get? k = some e' ∧ ∀ v, e = .resolved v → e' = .resolved v

namespace Advances

variable {entries entries' entries'' : Table K (Entry V)}

/-- Nothing is lost where nothing changes. -/
theorem refl (entries : Table K (Entry V)) : Advances entries entries :=
  fun _ e h => ⟨e, h, fun _ hv => hv⟩

/-- What is kept twice is kept. -/
theorem trans (h : Advances entries entries') (h' : Advances entries' entries'') :
    Advances entries entries'' := by
  intro k e he
  obtain ⟨e', he', hv'⟩ := h k e he
  obtain ⟨e'', he'', hv''⟩ := h' k e' he'
  exact ⟨e'', he'', fun v hv => hv'' v (hv' v hv)⟩

/-- Writing an entry loses nothing, unless it replaces a value. -/
theorem insert {k : K} (h : ∀ v, entries.get? k ≠ some (.resolved v)) (e : Entry V) :
    Advances entries (entries.insert k e) := by
  intro l e' he'
  by_cases hkl : k = l
  · subst hkl
    refine ⟨e, by simp, fun v hv => ?_⟩
    subst hv
    exact absurd he' (h v)
  · exact ⟨e', by simpa [hkl] using he', fun v hv => hv⟩

/-- A key that was seen stays so. -/
theorem seen (h : Advances entries entries') {k : K} (hk : (entries.get? k).isSome = true) :
    (entries'.get? k).isSome = true := by
  obtain ⟨e, he⟩ := Option.isSome_iff_exists.1 hk
  obtain ⟨e', he', -⟩ := h k e he
  rw [he', Option.isSome_some]

/-- A key that has been dealt with stays so. -/
theorem discovered (h : Advances entries entries') {s : PassSetting K V σ B} {k : K}
    (hk : s.Discovered entries k) : s.Discovered entries' k := by
  refine ⟨h.seen hk.1, fun hnone => ?_⟩
  obtain ⟨v, hv⟩ := hk.2 hnone
  obtain ⟨e', he', hv'⟩ := h k _ hv
  exact ⟨v, by rw [he', hv' v rfl]⟩

end Advances

/-- What holds of the entries at every moment of a search. -/
structure Explored (s : PassSetting K V σ B) (deps : K → List K) (root : K)
    (entries : Table K (Entry V)) : Prop where
  /-- Only what the root reaches is seen. -/
  reached : ∀ k e, entries.get? k = some e → ReflTransGen (s.Edge deps) root k
  /-- What a key that is done depends on has been dealt with. -/
  discovered : ∀ k v d, entries.get? k = some (.resolved v) → s.Edge deps k d →
    s.Discovered entries d
  /-- Without placeholders a key that is done is on no cycle. -/
  acyclic : s.placeholders = none → ∀ k v, entries.get? k = some (.resolved v) →
    ¬ TransGen (s.Edge deps) k k
  /-- Stand-ins are given only where there is a way to make them. -/
  plain : s.placeholders = none → ∀ k p, entries.get? k ≠ some (.placeholderIssued p)

namespace Explored

variable {s : PassSetting K V σ B} {deps : K → List K} {root : K}
  {entries : Table K (Entry V)} {k : K}

/-- At the beginning nothing has been seen. -/
theorem empty : Explored s deps root .empty where
  reached k e h := by simp at h
  discovered k v d h := by simp at h
  acyclic _ k v h := by simp at h
  plain _ k p h := by simp at h

/-- The root reaches only keys that have to be derived, if it is one itself. -/
theorem unpublished (hroot : s.cache.store.get? root = none)
    (hk : ReflTransGen (s.Edge deps) root k) : s.cache.store.get? k = none := by
  cases hk with
  | refl => exact hroot
  | tail _ hedge => exact hedge.2.2

/-- Without placeholders, what a key that is done reaches is done. -/
theorem resolved_of_reachable (h : Explored s deps root entries) (hnone : s.placeholders = none)
    {v : V} (hk : entries.get? k = some (.resolved v)) {d : K}
    (hd : ReflTransGen (s.Edge deps) k d) : ∃ u, entries.get? d = some (.resolved u) := by
  induction hd with
  | refl => exact ⟨v, hk⟩
  | tail _ hedge ih =>
      obtain ⟨u, hu⟩ := ih
      exact (h.discovered _ u _ hu hedge).2 hnone

/-- A key that the root reaches is requested, or requested again. -/
theorem mark (h : Explored s deps root entries) (hreached : ReflTransGen (s.Edge deps) root k)
    (hk : ∀ v, entries.get? k ≠ some (.resolved v)) {e : Entry V} (he : e.value? = none)
    (hplain : s.placeholders = none → e = .pending) :
    Explored s deps root (entries.insert k e) := by
  have hadvances : Advances entries (entries.insert k e) := .insert hk e
  have hold {l : K} {v : V} (hl : (entries.insert k e).get? l = some (.resolved v)) :
      entries.get? l = some (.resolved v) := by
    rw [Table.get?_insert] at hl
    split at hl
    · rw [Option.some.inj hl] at he
      simp [Entry.value?] at he
    · exact hl
  refine ⟨fun l e' hl => ?_, fun l v d hl hedge => ?_, fun hnone l v hl => ?_,
    fun hnone l p hl => ?_⟩
  · by_cases hkl : k = l
    · rwa [← hkl]
    · exact h.reached l e' (by simpa [hkl] using hl)
  · exact hadvances.discovered (h.discovered l v d (hold hl) hedge)
  · exact h.acyclic hnone l v (hold hl)
  · by_cases hkl : k = l
    · simp [hkl, hplain hnone] at hl
    · exact h.plain hnone l p (by simpa [hkl] using hl)

/-- A key is done when all that it depends on has been dealt with. -/
theorem resolve (h : Explored s deps root entries) (hreached : ReflTransGen (s.Edge deps) root k)
    (hk : ∀ v, entries.get? k ≠ some (.resolved v))
    (hdeps : ∀ d, s.Edge deps k d → s.Discovered entries d) (v : V) :
    Explored s deps root (entries.insert k (.resolved v)) := by
  have hadvances : Advances entries (entries.insert k (.resolved v)) := .insert hk _
  refine ⟨fun l e hl => ?_, fun l u d hl hedge => ?_, fun hnone l u hl hcycle => ?_,
    fun hnone l p hl => ?_⟩
  · by_cases hkl : k = l
    · rwa [← hkl]
    · exact h.reached l e (by simpa [hkl] using hl)
  · refine hadvances.discovered ?_
    by_cases hkl : k = l
    · exact hdeps d (hkl ▸ hedge)
    · exact h.discovered l u d (by simpa [hkl] using hl) hedge
  · by_cases hkl : k = l
    · -- the cycle goes through a dependency that is done, and then so was the key itself
      subst hkl
      obtain ⟨d, hedge, hback⟩ := TransGen.head'_iff.1 hcycle
      obtain ⟨u', hu'⟩ := (hdeps d hedge).2 hnone
      obtain ⟨u'', hu''⟩ := h.resolved_of_reachable hnone hu' hback
      exact hk u'' hu''
    · exact h.acyclic hnone l u (by simpa [hkl] using hl) hcycle
  · by_cases hkl : k = l
    · simp [hkl] at hl
    · exact h.plain hnone l p (by simpa [hkl] using hl)

/-- A search with no key in flight has derived exactly what the root reaches, if it has seen the
root. -/
theorem resolved_iff (h : Explored s deps root entries)
    (hsettled : ∀ k, ¬ (s.contextWith entries).InFlight k)
    (hroot : (entries.get? root).isSome = true) (k : K) :
    (∃ v, entries.get? k = some (.resolved v)) ↔ ReflTransGen (s.Edge deps) root k := by
  have hresolved {l : K} (hl : (entries.get? l).isSome = true) :
      ∃ v, entries.get? l = some (.resolved v) := by
    obtain ⟨e, he⟩ := Option.isSome_iff_exists.1 hl
    cases e with
    | resolved v => exact ⟨v, he⟩
    | pending => exact absurd ⟨_, he, rfl⟩ (hsettled l)
    | placeholderIssued p => exact absurd ⟨_, he, rfl⟩ (hsettled l)
  constructor
  · rintro ⟨v, hv⟩
    exact h.reached k _ hv
  · intro hk
    induction hk with
    | refl => exact hresolved hroot
    | tail _ hedge ih =>
        obtain ⟨v, hv⟩ := ih
        exact hresolved (h.discovered _ v _ hv hedge).1

end Explored

/-! ### What a search has called -/

variable [DecidableEq N] [BEq V] [ToString K]

/-- What holds of the entries and of the machines that a pass has gone through. -/
structure Logged (s : PassSetting K V σ B) (entries : Table K (Entry V))
    (past : List (Machine K N V σ B)) : Prop where
  inside : ∀ m ∈ past, m.focus.Inside
  calls_nodup : (Machine.calls past).Nodup
  /-- The keys that were seen are those whose builders were called. -/
  mem_calls : ∀ k, k ∈ Machine.calls past ↔ (entries.get? k).isSome = true
  issues_nodup : (Machine.issues past).Nodup
  /-- A placeholder was asked for where a key was requested while its builder was running. -/
  mem_issues : s.placeholders.isSome = true →
    ∀ k, k ∈ Machine.issues past ↔ ∃ m ∈ past, m.Reenters k
  /-- No placeholder was asked for a key that was not requested twice. -/
  issued : ∀ k, k ∈ Machine.issues past → ∃ e, entries.get? k = some e ∧ e ≠ .pending
  standIn : ∀ k p, entries.get? k = some (.placeholderIssued p) → k ∈ Machine.issues past

namespace Logged

variable {s : PassSetting K V σ B} {entries : Table K (Entry V)}
  {past : List (Machine K N V σ B)} {m : Machine K N V σ B} {k : K}

omit [DecidableEq N] [BEq V] in
/-- Before the first step nothing has been called. -/
theorem empty : Logged s .empty ([] : List (Machine K N V σ B)) where
  inside m h := by simp at h
  calls_nodup := List.nodup_nil
  mem_calls k := by simp
  issues_nodup := List.nodup_nil
  mem_issues _ k := by simp
  issued k h := by simp at h
  standIn k p h := by simp at h

omit [DecidableEq N] [BEq V] in
/-- One more machine that stays inside the pass. -/
theorem inside_append (h : Logged s entries past) (hinside : m.focus.Inside) :
    ∀ n ∈ past ++ [m], n.focus.Inside := by
  intro n hn
  rcases List.mem_append.1 hn with hn | hn
  · exact h.inside n hn
  · rwa [List.mem_singleton.1 hn]

omit [DecidableEq N] [BEq V] in
/-- A step that calls nothing adds nothing. -/
theorem idle (h : Logged s entries past) (hinside : m.focus.Inside)
    (hcalled : m.called? = none) (hissued : m.issued? = none)
    (hreenters : ∀ l, m.Reenters l → l ∈ Machine.issues past) :
    Logged s entries (past ++ [m]) := by
  have hcalls : Machine.calls (past ++ [m]) = Machine.calls past := by simp [hcalled]
  have hissues : Machine.issues (past ++ [m]) = Machine.issues past := by simp [hissued]
  refine ⟨h.inside_append hinside, hcalls ▸ h.calls_nodup, hcalls ▸ h.mem_calls,
    hissues ▸ h.issues_nodup, fun hsome l => ?_, hissues ▸ h.issued, hissues ▸ h.standIn⟩
  rw [hissues]
  constructor
  · intro hl
    obtain ⟨n, hn, hre⟩ := (h.mem_issues hsome l).1 hl
    exact ⟨n, List.mem_append_left _ hn, hre⟩
  · rintro ⟨n, hn, hre⟩
    rcases List.mem_append.1 hn with hn | hn
    · exact (h.mem_issues hsome l).2 ⟨n, hn, hre⟩
    · exact hreenters l (List.mem_singleton.1 hn ▸ hre)

omit [DecidableEq N] [BEq V] in
/-- A key that is requested for the first time is seen, and its builder is called. -/
theorem call (h : Logged s entries past) (hk : entries.get? k = none)
    (hinside : m.focus.Inside) (hcalled : m.called? = some k) (hissued : m.issued? = none)
    (hreenters : ∀ l, ¬ m.Reenters l) :
    Logged s (entries.insert k .pending) (past ++ [m]) := by
  have hcalls : Machine.calls (past ++ [m]) = Machine.calls past ++ [k] := by simp [hcalled]
  have hissues : Machine.issues (past ++ [m]) = Machine.issues past := by simp [hissued]
  have hunseen : k ∉ Machine.calls past := by
    rw [h.mem_calls, hk]
    simp
  have hne {l : K} (hl : l ∈ Machine.issues past) : k ≠ l := by
    rintro rfl
    obtain ⟨e, he, -⟩ := h.issued k hl
    simp [hk] at he
  refine ⟨h.inside_append hinside, ?_, fun l => ?_, hissues ▸ h.issues_nodup, fun hsome l => ?_,
    fun l hl => ?_, fun l p hl => ?_⟩
  · rw [hcalls, List.nodup_append]
    refine ⟨h.calls_nodup, List.nodup_singleton k, fun a ha b hb hab => hunseen ?_⟩
    rwa [← List.mem_singleton.1 hb, ← hab]
  · rw [hcalls, List.mem_append, h.mem_calls, List.mem_singleton, Table.get?_insert]
    by_cases hkl : k = l
    · simp [hkl]
    · simp [hkl, Ne.symm hkl]
  · rw [hissues, h.mem_issues hsome]
    constructor
    · rintro ⟨n, hn, hre⟩
      exact ⟨n, List.mem_append_left _ hn, hre⟩
    · rintro ⟨n, hn, hre⟩
      rcases List.mem_append.1 hn with hn | hn
      · exact ⟨n, hn, hre⟩
      · exact absurd (List.mem_singleton.1 hn ▸ hre) (hreenters l)
  · rw [hissues] at hl
    obtain ⟨e, he, hpending⟩ := h.issued l hl
    exact ⟨e, by simpa [hne hl] using he, hpending⟩
  · rw [hissues]
    by_cases hkl : k = l
    · simp [hkl] at hl
    · exact h.standIn l p (by simpa [hkl] using hl)

omit [DecidableEq N] [BEq V] in
/-- A pending key that is requested again gets a placeholder. -/
theorem issue (h : Logged s entries past) (hk : entries.get? k = some .pending)
    (hinside : m.focus.Inside) (hcalled : m.called? = none) (hissued : m.issued? = some k)
    (hreenters : ∀ l, m.Reenters l ↔ l = k) (p : Placeholder V) :
    Logged s (entries.insert k (.placeholderIssued p)) (past ++ [m]) := by
  have hcalls : Machine.calls (past ++ [m]) = Machine.calls past := by simp [hcalled]
  have hissues : Machine.issues (past ++ [m]) = Machine.issues past ++ [k] := by simp [hissued]
  have hunissued : k ∉ Machine.issues past := by
    intro hmem
    obtain ⟨e, he, hpending⟩ := h.issued k hmem
    exact hpending (Option.some.inj (he.symm.trans hk))
  refine ⟨h.inside_append hinside, hcalls ▸ h.calls_nodup, fun l => ?_, ?_, fun hsome l => ?_,
    fun l hl => ?_, fun l p' hl => ?_⟩
  · rw [hcalls, h.mem_calls, Table.get?_insert]
    by_cases hkl : k = l
    · subst hkl
      simp [hk]
    · simp [hkl]
  · rw [hissues, List.nodup_append]
    refine ⟨h.issues_nodup, List.nodup_singleton k, fun a ha b hb hab => hunissued ?_⟩
    rwa [← List.mem_singleton.1 hb, ← hab]
  · rw [hissues, List.mem_append, h.mem_issues hsome, List.mem_singleton, ← hreenters]
    constructor
    · rintro (⟨n, hn, hre⟩ | hre)
      · exact ⟨n, List.mem_append_left _ hn, hre⟩
      · exact ⟨m, by simp, hre⟩
    · rintro ⟨n, hn, hre⟩
      rcases List.mem_append.1 hn with hn | hn
      · exact Or.inl ⟨n, hn, hre⟩
      · exact Or.inr (List.mem_singleton.1 hn ▸ hre)
  · by_cases hkl : k = l
    · exact ⟨_, by simp [hkl]; rfl, by simp⟩
    · rw [hissues, List.mem_append, List.mem_singleton] at hl
      obtain ⟨e, he, hpending⟩ := h.issued l (hl.resolve_right (Ne.symm hkl))
      exact ⟨e, by simpa [hkl] using he, hpending⟩
  · rw [hissues, List.mem_append, List.mem_singleton]
    by_cases hkl : k = l
    · exact Or.inr hkl.symm
    · exact Or.inl (h.standIn l p' (by simpa [hkl] using hl))

omit [DecidableEq N] [BEq V] in
/-- A key that was seen gets its value. -/
theorem resolve (h : Logged s entries past) (hk : (entries.get? k).isSome = true) (v : V) :
    Logged s (entries.insert k (.resolved v)) past := by
  refine ⟨h.inside, h.calls_nodup, fun l => ?_, h.issues_nodup, h.mem_issues, fun l hl => ?_,
    fun l p hl => ?_⟩
  · rw [h.mem_calls, Table.get?_insert]
    by_cases hkl : k = l
    · subst hkl
      simp [hk]
    · simp [hkl]
  · by_cases hkl : k = l
    · exact ⟨.resolved v, by simp [hkl], by simp⟩
    · obtain ⟨e, he, hpending⟩ := h.issued l hl
      exact ⟨e, by simpa [hkl] using he, hpending⟩
  · by_cases hkl : k = l
    · simp [hkl] at hl
    · exact h.standIn l p (by simpa [hkl] using hl)

omit [DecidableEq N] [BEq V] in
/-- A machine that neither calls nor asks for anything adds nothing to the log. -/
theorem silent (h : Logged s entries past) (hinside : m.focus.Inside) (hsilent : m.Silent) :
    Logged s entries (past ++ [m]) :=
  h.idle hinside hsilent.called hsilent.issued fun l hl => absurd hl (hsilent.reenters l)

omit [DecidableEq N] [BEq V] in
/-- Running a routine calls no builder. -/
theorem run (h : Logged s entries past) (w : World K N V σ B) (b : Body K N V σ B)
    (stack : List (Frame K N V σ B)) : Logged s entries (past ++ [⟨w, .run b, stack⟩]) :=
  h.silent trivial (Machine.silent_of_focus (by simp))

omit [DecidableEq N] [BEq V] in
/-- Handing an answer on calls no builder. -/
theorem reply (h : Logged s entries past) (w : World K N V σ B) (x : ContextId) (k : K)
    (answer : Except RequestError (Option V)) (asker : Asker K N V σ B)
    (stack : List (Frame K N V σ B)) :
    Logged s entries (past ++ [⟨w, .reply x k answer asker, stack⟩]) :=
  h.silent trivial (Machine.silent_of_focus (by simp))

end Logged

/-! ### Keys in flight and builders that are running -/

namespace PassSetting

variable {s : PassSetting K V σ B} {entries : Table K (Entry V)} {k : K}
  {stack : List (Frame K N V σ B)}

omit [DecidableEq N] [BEq V] [ToString K] in
/-- No builder is running for a key that is not in flight. -/
theorem Suspended.key_ne (h : s.Suspended entries stack)
    (hk : ¬ (s.contextWith entries).InFlight k) :
    ∀ frame ∈ stack, frame.context = s.context → frame.key ≠ k := by
  intro frame hframe hcontext hkey
  exact hk ((h k).2 ⟨frame, hframe, hcontext, hkey⟩)

omit [DecidableEq N] [BEq V] [ToString K] in
/-- The key of a builder that starts to run is in flight. -/
theorem Suspended.push (h : s.Suspended entries stack) (k : K) (thread : ThreadId)
    (asker : Asker K N V σ B) :
    s.Suspended (entries.insert k .pending) (⟨s.context, k, thread, asker⟩ :: stack) := by
  intro l
  have hl := h l
  by_cases hkl : k = l
  · simp [inFlight_insert, hkl, Entry.value?]
  · simp [inFlight_insert, hkl, hl]

omit [DecidableEq N] [BEq V] [ToString K] in
/-- Giving a stand-in for a key in flight leaves it in flight. -/
theorem Suspended.mark (h : s.Suspended entries stack)
    (hk : (s.contextWith entries).InFlight k) (p : Placeholder V) :
    s.Suspended (entries.insert k (.placeholderIssued p)) stack := by
  intro l
  rw [inFlight_insert, ← h l]
  by_cases hkl : k = l
  · subst hkl
    simp [Entry.value?, hk]
  · simp [hkl]

omit [DecidableEq N] [BEq V] [ToString K] in
/-- The key of a builder that has returned is in flight no more. -/
theorem Suspended.pop {thread : ThreadId} {asker : Asker K N V σ B}
    (h : s.Suspended entries (⟨s.context, k, thread, asker⟩ :: stack))
    (hne : ∀ frame ∈ stack, frame.context = s.context → frame.key ≠ k) (v : V) :
    s.Suspended (entries.insert k (.resolved v)) stack := by
  intro l
  rw [inFlight_insert, h l]
  by_cases hkl : k = l
  · subst hkl
    simpa [Entry.value?] using hne
  · simp [hkl]

end PassSetting

/-! ### Requests of a search -/

/-- A moment of a search: the world is one of the pass, and its entries, the machines that it has
gone through and the builders that are running are in accord. -/
structure Search (s : PassSetting K V σ B) (deps : K → List K) (root : K) (w : World K N V σ B)
    (entries : Table K (Entry V)) (past : List (Machine K N V σ B))
    (stack : List (Frame K N V σ B)) : Prop where
  inPass : w.InPass s entries
  explored : Explored s deps root entries
  logged : Logged s entries past
  suspended : s.Suspended entries stack

/-- How a request for a key ends: the key has been dealt with, or a cycle was met. -/
inductive Finds (s : PassSetting K V σ B) (deps : K → List K) (root : K)
    (entries : Table K (Entry V)) (stack : List (Frame K N V σ B)) (k : K)
    (w' : World K N V σ B) (past' : List (Machine K N V σ B)) :
    Except RequestError (Option V) → Prop
  | value {entries' : Table K (Entry V)} (v : V)
      (search : Search s deps root w' entries' past' stack) (advances : Advances entries entries')
      (discovered : s.cache.store.get? k = none → s.Discovered entries' k) :
      Finds s deps root entries stack k w' past' (.ok (some v))
  | cycle {entries' : Table K (Entry V)} (l : K) (inPass : w'.InPass s entries')
      (none : s.placeholders = none) (reached : ReflTransGen (s.Edge deps) root l)
      (cycle : TransGen (s.Edge deps) l l) :
      Finds s deps root entries stack k w' past'
        (.error (.violation (.unresolvableReentry (toString l))))

/-- The machine comes to the reply to a request for the key, after the machines that it has gone
through before. -/
def Replies (body : B → ContextId → K → Body K N V σ B) (s : PassSetting K V σ B)
    (deps : K → List K) (root : K) (entries : Table K (Entry V)) (past : List (Machine K N V σ B))
    (stack : List (Frame K N V σ B)) (k : K) (asker : Asker K N V σ B) (m : Machine K N V σ B) :
    Prop :=
  ∃ ms w' answer, Machine.Path body m ms ⟨w', .reply s.context k answer asker, stack⟩ ∧
    Finds s deps root entries stack k w' (past ++ ms) answer

omit [DecidableEq N] [BEq V] in
/-- What is found later is found from the start. -/
theorem Finds.of_advances {s : PassSetting K V σ B} {deps : K → List K} {root k : K}
    {entries entries' : Table K (Entry V)} {stack : List (Frame K N V σ B)}
    {w' : World K N V σ B} {past' : List (Machine K N V σ B)}
    {answer : Except RequestError (Option V)} (hadvances : Advances entries entries')
    (h : Finds s deps root entries' stack k w' past' answer) :
    Finds s deps root entries stack k w' past' answer := by
  cases h with
  | value v search advances discovered =>
      exact .value v search (hadvances.trans advances) discovered
  | cycle l inPass none reached cycle => exact .cycle l inPass none reached cycle

namespace Search

variable {s : PassSetting K V σ B} {deps : K → List K} {root : K} {w w' : World K N V σ B}
  {entries : Table K (Entry V)} {past : List (Machine K N V σ B)}
  {stack : List (Frame K N V σ B)} {k : K} {asker : Asker K N V σ B}
  (body : B → ContextId → K → Body K N V σ B)

/-- A key that the pass knows is answered. -/
theorem ask_known (h : Search s deps root w entries past stack) {v : V}
    (howns : s.cache.owns k = true) (hv : s.known? entries k = some v)
    (hreenters : (∃ frame ∈ stack, frame.context = s.context ∧ frame.key = k) →
      k ∈ Machine.issues past)
    (hdiscovered : s.cache.store.get? k = none → s.Discovered entries k) :
    Replies body s deps root entries past stack k asker ⟨w, .ask s.context k asker, stack⟩ := by
  obtain ⟨hstep, hcalled, hissued⟩ := h.inPass.ask_known body howns hv asker stack
  have hlogged := h.logged.idle (m := ⟨w, .ask s.context k asker, stack⟩) trivial hcalled hissued
    (by
      intro l hl
      obtain ⟨rfl, hframe⟩ := Machine.reenters_ask.1 hl
      exact hreenters hframe)
  exact ⟨_, w, _, .one hstep, .value v ⟨h.inPass, h.explored, hlogged, h.suspended⟩
    (Advances.refl entries) hdiscovered⟩

/-- A key that is pending is answered with a stand-in, or it is on a cycle. -/
theorem ask_pending (h : Search s deps root w entries past stack)
    (howns : s.cache.owns k = true) (hstore : s.cache.store.get? k = none)
    (hk : entries.get? k = some .pending) (hreached : ReflTransGen (s.Edge deps) root k)
    (hleads : s.Leads deps stack k) :
    Replies body s deps root entries past stack k asker ⟨w, .ask s.context k asker, stack⟩ := by
  have hflight : (s.contextWith entries).InFlight k := ⟨.pending, hk, rfl⟩
  obtain ⟨frame, hframe, hcontext, hkey⟩ := (h.suspended k).1 hflight
  have hunresolved : ∀ v, entries.get? k ≠ some (.resolved v) := by simp [hk]
  cases hplaceholders : s.placeholders with
  | none =>
      have hstep := h.inPass.ask_refused body howns hstore hk hplaceholders asker stack
      have hcycle : TransGen (s.Edge deps) k k := by
        have hlead := hleads frame hframe hcontext
        rwa [hkey] at hlead
      exact ⟨_, w, _, .one hstep, .cycle k h.inPass hplaceholders hreached hcycle⟩
  | some make =>
      have hsome : s.placeholders.isSome = true := by rw [hplaceholders, Option.isSome_some]
      have hplain : s.placeholders = none → ∀ e : Entry V, e = .pending := by
        simp [hplaceholders]
      obtain ⟨p, w', hstep, hpass, hcalled, hissued⟩ :=
        h.inPass.ask_issue body howns hstore hk hsome asker stack
      have hreenters (l : K) :
          (⟨w, .ask s.context k asker, stack⟩ : Machine K N V σ B).Reenters l ↔ l = k := by
        rw [Machine.reenters_ask]
        exact ⟨fun hl => hl.1, fun hl => ⟨hl, frame, hframe, hcontext, hkey⟩⟩
      have hexplored := h.explored.mark hreached hunresolved (e := .placeholderIssued p) rfl
        fun hnone => hplain hnone _
      have hlogged := h.logged.issue hk (m := ⟨w, .ask s.context k asker, stack⟩) trivial hcalled
        hissued hreenters p
      refine ⟨_, w', _, .one hstep, .value p.standIn
        ⟨hpass, hexplored, hlogged, h.suspended.mark hflight p⟩ (.insert hunresolved _)
        fun _ => ⟨by simp, by simp [hplaceholders]⟩⟩

/-- The keys that the root reaches and that have not been seen. -/
def unseen (s : PassSetting K V σ B) (deps : K → List K) (root : K)
    (entries : Table K (Entry V)) : Set K :=
  {k | ReflTransGen (s.Edge deps) root k ∧ entries.get? k = none}

omit [DecidableEq N] [BEq V] [ToString K] in
/-- What was seen stays so. -/
theorem ncard_unseen_le (hfinite : {k | ReflTransGen (s.Edge deps) root k}.Finite)
    {entries' : Table K (Entry V)} (h : Advances entries entries') :
    (unseen s deps root entries').ncard ≤ (unseen s deps root entries).ncard := by
  refine Set.ncard_le_ncard ?_ (hfinite.subset fun l hl => hl.1)
  rintro l ⟨hreached, hl⟩
  refine ⟨hreached, ?_⟩
  by_contra hseen
  have hstill := h.seen (Option.isSome_iff_ne_none.2 hseen)
  simp [hl] at hstill

omit [DecidableEq N] [BEq V] [ToString K] in
/-- One key less is unseen after a builder was called. -/
theorem ncard_unseen_lt (hfinite : {k | ReflTransGen (s.Edge deps) root k}.Finite)
    (hreached : ReflTransGen (s.Edge deps) root k) (hk : entries.get? k = none) :
    (unseen s deps root (entries.insert k .pending)).ncard <
      (unseen s deps root entries).ncard := by
  refine Set.ncard_lt_ncard ?_ (hfinite.subset fun l hl => hl.1)
  rw [Set.ssubset_iff_of_subset]
  · exact ⟨k, ⟨hreached, hk⟩, fun hseen => by simpa using hseen.2⟩
  · rintro l ⟨hl, hunseen⟩
    refine ⟨hl, ?_⟩
    by_cases hkl : k = l
    · simp [hkl] at hunseen
    · simpa [hkl] using hunseen

end Search

/-- Every builder requests the dependencies of its key, of which the root reaches finitely many.
Without placeholders, errors are relayed. -/
structure PassSetting.Orderly (s : PassSetting K V σ B) (body : B → ContextId → K → Body K N V σ B)
    (deps : K → List K) (root : K) : Prop where
  builders : ∀ b k, Routine.InOrder s.context (s.placeholders = none) (deps k) (body b s.context k)
  finite : {k | ReflTransGen (s.Edge deps) root k}.Finite
  unpublished : s.cache.store.get? root = none
  owns : ∀ k, ReflTransGen (s.Edge deps) root k → ∀ d ∈ deps k, s.cache.owns d = true

/-- The key has to be derived, and its builder is called above this stack. -/
structure PassSetting.Derives (s : PassSetting K V σ B) (deps : K → List K) (root : K)
    (stack : List (Frame K N V σ B)) (k : K) : Prop where
  owns : s.cache.owns k = true
  reached : ReflTransGen (s.Edge deps) root k
  leads : s.Leads deps stack k
  sole : ∀ frame ∈ stack, frame.context = s.context → frame.key ≠ k

omit [DecidableEq N] [BEq V] [ToString K] in
/-- There is a way to what a key depends on from every key whose builder is running. -/
theorem PassSetting.Derives.leads_cons {s : PassSetting K V σ B} {deps : K → List K} {root k d : K}
    {stack : List (Frame K N V σ B)} (h : s.Derives deps root stack k) (hedge : s.Edge deps k d)
    (thread : ThreadId) (asker : Asker K N V σ B) :
    s.Leads deps (⟨s.context, k, thread, asker⟩ :: stack) d := by
  intro frame hframe hcontext
  rcases List.mem_cons.1 hframe with rfl | hframe
  · exact .single hedge
  · exact (h.leads frame hframe hcontext).tail hedge

namespace Search

variable {s : PassSetting K V σ B} {deps : K → List K} {root : K} {w w' : World K N V σ B}
  {entries : Table K (Entry V)} {past : List (Machine K N V σ B)}
  {stack : List (Frame K N V σ B)} {k : K} {thread : ThreadId} {asker : Asker K N V σ B}
  {body : B → ContextId → K → Body K N V σ B}

/-- The value that a builder returns is recorded when all that its key depends on has been dealt
with. -/
theorem return_value (hk : s.Derives deps root stack k)
    (hdeps : ∀ d, s.Edge deps k d → s.Discovered entries d)
    (h : Search s deps root w entries past (⟨s.context, k, thread, asker⟩ :: stack)) (v : V) :
    Replies body s deps root entries past stack k asker
      ⟨w, .run (.done (.ok v)), ⟨s.context, k, thread, asker⟩ :: stack⟩ := by
  obtain ⟨hseen, hunresolved⟩ := PassSetting.seen_of_inFlight
    ((h.suspended k).2 ⟨_, List.mem_cons_self, rfl, rfl⟩)
  obtain ⟨w', hstep, hpass⟩ := h.inPass.return_value body hk.owns v thread asker stack
  have hexplored := h.explored.resolve hk.reached hunresolved hdeps v
  have hlogged := h.logged.run w (.done (.ok v)) (⟨s.context, k, thread, asker⟩ :: stack)
  refine ⟨_, w', _, .one hstep, .value v ⟨hpass, hexplored, hlogged.resolve hseen v,
    h.suspended.pop hk.sole v⟩ (.insert hunresolved _) fun _ => ⟨by simp, fun _ => ⟨v, by simp⟩⟩⟩

/-- Every request of a search is answered while at most this many keys are unseen. -/
def Answers (body : B → ContextId → K → Body K N V σ B) (s : PassSetting K V σ B)
    (deps : K → List K) (root : K) (n : Nat) : Prop :=
  ∀ (w : World K N V σ B) (entries : Table K (Entry V)) (past : List (Machine K N V σ B))
    (stack : List (Frame K N V σ B)) (k : K) (asker : Asker K N V σ B),
    Search s deps root w entries past stack → s.cache.owns k = true →
    (s.cache.store.get? k = none →
      ReflTransGen (s.Edge deps) root k ∧ s.Leads deps stack k) →
    (unseen s deps root entries).ncard ≤ n →
    Replies body s deps root entries past stack k asker ⟨w, .ask s.context k asker, stack⟩

/-- A builder that goes on requesting the dependencies of its key, some of which have been dealt
with, returns, if every request is answered. -/
theorem run_builder (hs : s.Orderly body deps root) {n : Nat}
    (hanswers : Answers body s deps root n) (hk : s.Derives deps root stack k) {keys : List K}
    {b : Body K N V σ B} (hb : Routine.InOrder s.context (s.placeholders = none) keys b)
    {done : List K} (hkeys : deps k = done ++ keys)
    (hdone : ∀ d ∈ done, s.cache.store.get? d = none → s.Discovered entries d)
    (h : Search s deps root w entries past (⟨s.context, k, thread, asker⟩ :: stack))
    (hunseen : (unseen s deps root entries).ncard ≤ n) :
    Replies body s deps root entries past stack k asker
      ⟨w, .run b, ⟨s.context, k, thread, asker⟩ :: stack⟩ := by
  induction hb generalizing w entries past done with
  | done v =>
      refine h.return_value hk (fun d hedge => hdone d ?_ hedge.2.2) v
      rw [List.append_nil] at hkeys
      exact hkeys ▸ hedge.2.1
  | @perform keys request next apart _ ih =>
      obtain ⟨a, w₁, hstep, h₁⟩ :=
        h.inPass.step_private body apart next (⟨s.context, k, thread, asker⟩ :: stack)
      have hlogged :=
        h.logged.run w (.perform request next) (⟨s.context, k, thread, asker⟩ :: stack)
      obtain ⟨ms, w', answer, hpath, hfinds⟩ :=
        ih a hkeys hdone ⟨h₁, h.explored, hlogged, h.suspended⟩ hunseen
      rw [List.append_assoc, List.singleton_append] at hfinds
      exact ⟨_, w', answer, .step hstep hpath, hfinds⟩
  | @build d keys next _ failed ih =>
      have hmem : d ∈ deps k := by simp [hkeys]
      have hrequested (hd : s.cache.store.get? d = none) : s.Edge deps k d :=
        ⟨Explored.unpublished hs.unpublished hk.reached, hmem, hd⟩
      have hlogged :=
        h.logged.run w (.build s.context d next) (⟨s.context, k, thread, asker⟩ :: stack)
      obtain ⟨ms₁, w₁, answer₁, hpath₁, hfinds₁⟩ := hanswers w entries _ _ d (.routine next)
        ⟨h.inPass, h.explored, hlogged, h.suspended⟩ (hs.owns k hk.reached d hmem)
        (fun hd => ⟨hk.reached.tail (hrequested hd), hk.leads_cons (hrequested hd) thread asker⟩)
        hunseen
      -- the request, how it ends, and its answer handed to the builder
      have hpath := (Machine.Path.step (Machine.step_build body ..) hpath₁).trans
        (.one (Machine.step_reply_routine body ..))
      cases hfinds₁ with
      | @value entries₁ v search advances discovered =>
          have hlogged₁ := search.logged.reply w₁ s.context d (.ok (some v)) (.routine next)
            (⟨s.context, k, thread, asker⟩ :: stack)
          have hdone₁ : ∀ d' ∈ done ++ [d], s.cache.store.get? d' = none →
              s.Discovered entries₁ d' := by
            intro d' hd' hnone
            rcases List.mem_append.1 hd' with hd' | hd'
            · exact advances.discovered (hdone d' hd' hnone)
            · obtain rfl := List.mem_singleton.1 hd'
              exact discovered hnone
          obtain ⟨ms₂, w', answer, hpath₂, hfinds₂⟩ := ih v (by simp [hkeys]) hdone₁
            ⟨search.inPass, search.explored, hlogged₁, search.suspended⟩
            ((ncard_unseen_le hs.finite advances).trans hunseen)
          refine ⟨_, w', answer, hpath.trans hpath₂, ?_⟩
          simpa using hfinds₂.of_advances advances
      | cycle l inPass hnone reached cycle =>
          obtain ⟨ms₂, w', hpath₂, hpass, -⟩ :=
            inPass.ends body (failed hnone _) k thread asker stack
          exact ⟨_, w', _, hpath.trans hpath₂, .cycle l hpass hnone reached cycle⟩

/-- A key that was not seen is marked as pending, and its builder is called. -/
theorem ask_unseen (hs : s.Orderly body deps root) {n : Nat}
    (hanswers : Answers (N := N) body s deps root n)
    (h : Search s deps root w entries past stack) (howns : s.cache.owns k = true)
    (hstore : s.cache.store.get? k = none) (hk : entries.get? k = none)
    (hreached : ReflTransGen (s.Edge deps) root k) (hleads : s.Leads deps stack k)
    (hunseen : (unseen s deps root (entries.insert k .pending)).ncard ≤ n) :
    Replies body s deps root entries past stack k asker ⟨w, .ask s.context k asker, stack⟩ := by
  have hflight : ¬ (s.contextWith entries).InFlight k := by
    rintro ⟨e, he, -⟩
    exact absurd (hk.symm.trans he) (by simp)
  have hunresolved : ∀ v, entries.get? k ≠ some (.resolved v) := by simp [hk]
  have hsole := h.suspended.key_ne hflight
  obtain ⟨thread, w₁, hstep, hpass, hcalled, hissued⟩ :=
    h.inPass.ask_unseen body howns hstore hk asker stack
  have hreenters (l : K) :
      ¬ (⟨w, .ask s.context k asker, stack⟩ : Machine K N V σ B).Reenters l := by
    rw [Machine.reenters_ask]
    rintro ⟨-, frame, hframe, hcontext, hkey⟩
    exact hsole frame hframe hcontext hkey
  have hexplored := h.explored.mark hreached hunresolved (e := .pending) rfl fun _ => rfl
  have hlogged := h.logged.call hk (m := ⟨w, .ask s.context k asker, stack⟩) trivial hcalled
    hissued hreenters
  obtain ⟨ms, w', answer, hpath, hfinds⟩ := run_builder hs hanswers
    ⟨howns, hreached, hleads, hsole⟩ (hs.builders s.builder k)
    (show deps k = [] ++ deps k from rfl) (by simp)
    ⟨hpass, hexplored, hlogged, h.suspended.push k thread asker⟩ hunseen
  refine ⟨_, w', answer, .step hstep hpath, ?_⟩
  simpa using hfinds.of_advances (.insert hunresolved .pending)

/-- A request of a search is answered, unless it meets a cycle. -/
theorem answers (hs : s.Orderly body deps root) (n : Nat) :
    Answers (N := N) body s deps root n := by
  induction n using Nat.strong_induction_on with
  | _ n ih =>
      intro w entries past stack k asker h howns hderive hunseen
      have hseen {e : Entry V} (he : entries.get? k = some e) : s.cache.store.get? k = none :=
        Explored.unpublished hs.unpublished (h.explored.reached k e he)
      cases hstore : s.cache.store.get? k with
      | some v =>
          refine h.ask_known body howns (v := v) (by simp [PassSetting.known?, hstore]) ?_
            fun hnone => absurd (hstore.symm.trans hnone) (by simp)
          rintro ⟨frame, hframe, hcontext, hkey⟩
          obtain ⟨e, he, -⟩ := (h.suspended k).2 ⟨frame, hframe, hcontext, hkey⟩
          exact absurd (hstore.symm.trans (hseen he)) (by simp)
      | none =>
          obtain ⟨hreached, hleads⟩ := hderive hstore
          cases hk : entries.get? k with
          | none =>
              have hless := ncard_unseen_lt hs.finite hreached hk
              exact h.ask_unseen hs (ih _ (by omega)) howns hstore hk hreached hleads
                (Nat.le_refl _)
          | some e =>
              cases e with
              | pending => exact h.ask_pending body howns hstore hk hreached hleads
              | placeholderIssued p =>
                  refine h.ask_known body howns (v := p.standIn)
                    (by simp [PassSetting.known?, hstore, hk]) (fun _ => h.logged.standIn k p hk)
                    fun _ => ⟨by simp [hk], fun hnone => ?_⟩
                  exact absurd hk (h.explored.plain hnone k p)
              | resolved v =>
                  refine h.ask_known body howns (v := v)
                    (by simp [PassSetting.known?, hstore, hk]) ?_
                    fun _ => ⟨by simp [hk], fun _ => ⟨v, hk⟩⟩
                  rintro ⟨frame, hframe, hcontext, hkey⟩
                  have hflight := (h.suspended k).2 ⟨frame, hframe, hcontext, hkey⟩
                  exact absurd hk ((PassSetting.seen_of_inFlight hflight).2 v)

end Search

end DerivationCache
