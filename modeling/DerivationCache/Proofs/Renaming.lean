import DerivationCache.Machine
import Mathlib.Algebra.Group.Action.Basic
import Mathlib.Algebra.Group.Action.Option
import Mathlib.Algebra.Group.Action.Prod
import Mathlib.Algebra.Group.End
import Mathlib.Algebra.Group.Pi.Basic

/-!
# Renaming

Caches, contexts, placeholder cells, threads and failures are told apart by numbers that carry no
meaning. A `Renaming` gives all of them other numbers, one to one. It acts on everything that
numbers occur in, and whatever is done to a context or a cache commutes with it: an operation on
renamed data comes to the renamed result.

Values may contain numbers too, those of placeholder cells above all. How a renaming acts on them is
up to the values, as long as it does not change which of them are equal (`RenamesAlike`).

## Main results

* `Context.record_smul`, `Context.refusal_smul`: recording in a context and the check before a
  commit.
* `Cache.publish_smul`, `Cache.request_smul`, `Cache.claim_smul`, `Cache.recheck_smul`: the parts of
  a request for a derived value.
-/

namespace DerivationCache

/-- The kinds of things that are told apart by numbers alone. -/
inductive Kind where
  | cache
  | context
  | cell
  | thread
  /-- Failures that are counted. -/
  | failure

/-- Other numbers for everything, one to one. -/
abbrev Renaming : Type := Kind → Equiv.Perm ℕ

variable {K N V σ B : Type} {π : Renaming}

/-! ### Identities -/

/-- A renaming acts on the name of a cache. -/
instance : MulAction Renaming CacheId where
  smul π c := ⟨π .cache c.index⟩
  one_smul _ := rfl
  mul_smul _ _ _ := rfl

/-- A renaming acts on the name of a context. -/
instance : MulAction Renaming ContextId where
  smul π x := ⟨π .context x.index⟩
  one_smul _ := rfl
  mul_smul _ _ _ := rfl

/-- A renaming acts on the name of a cell. -/
instance : MulAction Renaming CellId where
  smul π h := ⟨π .cell h.index⟩
  one_smul _ := rfl
  mul_smul _ _ _ := rfl

/-- A renaming acts on the name of a thread. -/
instance : MulAction Renaming ThreadId where
  smul π t := ⟨π .thread t.index⟩
  one_smul _ := rfl
  mul_smul _ _ _ := rfl

/-- A renaming acts on the number of a counted failure. -/
instance : SMul Renaming FailureId where
  smul π
    | .counted n => .counted (π .failure n)
    | .uncounted n => .uncounted n

/-- A renamed failure keeps its message. -/
instance : SMul Renaming Failure where
  smul π f := ⟨π • f.id, f.message⟩

/-- The index of a renamed cell. -/
theorem CellId.smul_index (h : CellId) : (π • h).index = π .cell h.index := rfl

/-- The index of a renamed context. -/
theorem ContextId.smul_index (x : ContextId) : (π • x).index = π .context x.index := rfl

/-- The index of a renamed cache. -/
theorem CacheId.smul_index (c : CacheId) : (π • c).index = π .cache c.index := rfl

/-! ### Answers -/

/-- Violations and conflicts speak of keys alone, so only failures are renamed. -/
instance : SMul Renaming RequestError where
  smul π
    | .failure f => .failure (π • f)
    | .violation e => .violation e
    | .conflict k => .conflict k

section Answers

variable {α : Type} [SMul Renaming α]

/-- A renaming acts on values and errors alike. -/
instance : SMul Renaming (Except RequestError α) where
  smul π
    | .ok a => .ok (π • a)
    | .error e => .error (π • e)

/-- Violations name keys, which have no numbers. -/
instance : SMul Renaming (Except Violation α) where
  smul π
    | .ok a => .ok (π • a)
    | .error e => .error e

@[simp] theorem smul_requestOk (a : α) : π • (.ok a : Except RequestError α) = .ok (π • a) := rfl

@[simp] theorem smul_requestError (e : RequestError) :
    π • (.error e : Except RequestError α) = .error (π • e) := rfl

/-- A failure that is reported as an error is renamed as a failure. -/
@[simp] theorem smul_failure (f : Failure) :
    π • (RequestError.failure f) = .failure (π • f) := rfl

end Answers

variable [SMul Renaming V]

/-- A panic carries nothing that could be renamed. -/
instance : SMul Renaming (Outcome V) where
  smul π
    | .returned r => .returned (π • r)
    | .panicked message => .panicked message

/-! ### Tables -/

namespace Table

/-- A renaming acts on the values of a table and leaves its keys in their order. -/
instance : SMul Renaming (Table K V) where
  smul π t := ⟨t.toList.map fun p => (p.1, π • p.2), by
    simpa [List.map_map, Function.comp_def] using t.nodup⟩

theorem toList_smul (t : Table K V) : (π • t).toList = t.toList.map fun p => (p.1, π • p.2) := rfl

omit [SMul Renaming V] in
/-- A table is determined by its listing. -/
theorem eq_of_toList {t t' : Table K V} (h : t.toList = t'.toList) : t = t' := by
  obtain ⟨l, hl⟩ := t
  obtain ⟨l', hl'⟩ := t'
  obtain rfl : l = l' := h
  rfl

variable [DecidableEq K]

/-- Looking up a key in a renamed list gives the renamed value. -/
theorem lookup_smul (k : K) (l : List (K × V)) :
    lookup k (l.map fun p => (p.1, π • p.2)) = π • lookup k l := by
  induction l with
  | nil => rfl
  | cons p rest ih =>
      by_cases hk : p.1 = k
      · simp [lookup, hk]
      · simp [lookup, hk, ih]

/-- A renamed value is put in the place in which the value itself would be put. -/
theorem put_smul (k : K) (v : V) (l : List (K × V)) :
    put k (π • v) (l.map fun p => (p.1, π • p.2)) = (put k v l).map fun p => (p.1, π • p.2) := by
  induction l with
  | nil => rfl
  | cons p rest ih =>
      by_cases hk : p.1 = k
      · simp [put, hk]
      · simp [put, hk, ih]

/-- The view of a renamed table is the renamed view. -/
@[simp] theorem get?_smul (t : Table K V) (k : K) : (π • t).get? k = π • t.get? k :=
  lookup_smul k t.toList

/-- A renamed table has the same keys. -/
@[simp] theorem contains_smul (t : Table K V) (k : K) : (π • t).contains k = t.contains k := by
  rw [contains, get?_smul, contains]
  cases t.get? k <;> rfl

/-- Renaming commutes with an insertion. -/
theorem smul_insert (t : Table K V) (k : K) (v : V) :
    π • t.insert k v = (π • t).insert k (π • v) :=
  eq_of_toList (put_smul k v t.toList).symm

/-- Renaming commutes with taking a key away. -/
theorem smul_erase (t : Table K V) (k : K) : π • t.erase k = (π • t).erase k := by
  refine eq_of_toList (Eq.symm ?_)
  exact List.filter_map

/-- Renaming commutes with inserting many pairs. -/
theorem smul_insertAll (t : Table K V) (l : List (K × V)) :
    π • t.insertAll l = (π • t).insertAll (l.map fun p => (p.1, π • p.2)) := by
  induction l generalizing t with
  | nil => rfl
  | cons p rest ih =>
      have hrest := ih (t.insert p.1 p.2)
      rwa [smul_insert] at hrest

/-- Renaming commutes with taking many keys away. -/
theorem smul_eraseAll (t : Table K V) (ks : List K) : π • t.eraseAll ks = (π • t).eraseAll ks := by
  induction ks generalizing t with
  | nil => rfl
  | cons k rest ih =>
      have hrest := ih (t.erase k)
      rwa [smul_erase] at hrest

end Table

/-- A renaming does not change which values are equal. -/
class RenamesAlike (V : Type) [BEq V] [SMul Renaming V] : Prop where
  beq_smul : ∀ (π : Renaming) (u v : V), (π • u == π • v) = (u == v)

export RenamesAlike (beq_smul)

/-! ### Contexts -/

/-- A renaming acts on the stand-in of a placeholder and on its cell. -/
instance : SMul Renaming (Placeholder V) where
  smul π p := ⟨p.kind, π • p.standIn, π • p.cell⟩

/-- A renaming acts on what an entry holds, and leaves its stage as it is. -/
instance : SMul Renaming (Entry V) where
  smul π
    | .pending => .pending
    | .placeholderIssued p => .placeholderIssued (π • p)
    | .resolved v => .resolved (π • v)

@[simp] theorem smul_pending : π • (.pending : Entry V) = .pending := rfl

@[simp] theorem smul_resolved (v : V) : π • Entry.resolved v = .resolved (π • v) := rfl

/-- A renamed entry has the renamed value. -/
theorem Entry.value?_smul (e : Entry V) : (π • e).value? = π • e.value? := by
  cases e <;> rfl

/-- A renamed entry is refused for the same reason, since the reason speaks of the key alone. -/
theorem Entry.refusal_smul [ToString K] (k : K) (e : Entry V) :
    (π • e).refusal k = e.refusal k := by
  cases e <;> rfl

namespace Context

/-- A renaming acts on the entries of a context and on its parent. The collaborators stay the
same. -/
instance : SMul Renaming (Context K V σ B) where
  smul π x := { x with entries := π • x.entries, parent := π • x.parent }

@[simp] theorem smul_entries (x : Context K V σ B) : (π • x).entries = π • x.entries := rfl

@[simp] theorem smul_parent (x : Context K V σ B) : (π • x).parent = π • x.parent := rfl

@[simp] theorem smul_builder (x : Context K V σ B) : (π • x).builder = x.builder := rfl

@[simp] theorem smul_placeholders (x : Context K V σ B) :
    (π • x).placeholders = x.placeholders := rfl

/-- The recorded pairs of a renamed context. -/
theorem recorded_smul (x : Context K V σ B) :
    (π • x).recorded = x.recorded.map fun p => (p.1, π • p.2) := by
  rw [recorded, smul_entries, Table.toList_smul, List.filterMap_map, recorded, List.map_filterMap]
  congr 1
  funext p
  simp only [Function.comp_apply, Entry.value?_smul]
  cases p.2.value? <;> rfl

/-- A renaming does not change why a commit is refused, since errors speak of keys alone. -/
theorem refusal_smul [ToString K] (x : Context K V σ B) : (π • x).refusal = x.refusal := by
  rw [refusal, smul_entries, Table.toList_smul, List.findSome?_map, refusal]
  congr 1
  funext p
  exact Entry.refusal_smul p.1 p.2

variable [DecidableEq K]

/-- The recorded value of a key in a renamed context. -/
theorem get?_smul (x : Context K V σ B) (k : K) : (π • x).get? k = π • x.get? k := by
  rw [get?, smul_entries, Table.get?_smul, get?]
  cases x.entries.get? k with
  | none => rfl
  | some e => exact e.value?_smul

/-- The answer of a renamed context, its error included. -/
theorem get_smul [ToString K] (x : Context K V σ B) (k : K) : (π • x).get k = π • x.get k := by
  rw [get, get?_smul, get]
  cases x.get? k <;> rfl

/-- Renaming commutes with setting an entry. -/
theorem smul_setEntry (x : Context K V σ B) (k : K) (e : Entry V) :
    π • x.setEntry k e = (π • x).setEntry k (π • e) := by
  have hentries : π • x.entries.insert k e = (π • x.entries).insert k (π • e) :=
    Table.smul_insert x.entries k e
  exact congrArg (fun t => ({ x with entries := t, parent := π • x.parent } : Context K V σ B))
    hentries

/-- A renaming acts on the context that recording results in and on the cell that is resolved. -/
instance : SMul Renaming (RecordOutcome (Context K V σ B)) where
  smul π
    | .unchanged => .unchanged
    | .duplicate => .duplicate
    | .recorded x cell => .recorded (π • x) (π • cell)

/-- Recording a renamed value in a renamed context. -/
theorem record_smul [BEq V] [RenamesAlike V] (x : Context K V σ B) (k : K) (v : V)
    (overwrite : Bool) : (π • x).record k (π • v) overwrite = π • x.record k v overwrite := by
  have hwritten : (π • x).setEntry k (.resolved (π • v)) = π • x.setEntry k (.resolved v) :=
    (smul_setEntry x k (.resolved v)).symm
  rw [record, hwritten, smul_entries, Table.get?_smul, record]
  rcases x.entries.get? k with _ | ⟨_ | p | u⟩
  · rfl
  · rfl
  · rfl
  · cases overwrite with
    | true => rfl
    | false =>
        have hsame : (π • u == π • v) = (u == v) := beq_smul π u v
        rw [Option.smul_some, smul_resolved]
        simp only [Bool.false_eq_true, if_false, hsame]
        cases u == v <;> rfl

end Context

/-! ### Caches -/

namespace Cache

/-- A renaming acts on the tables of a cache. Its configuration and its counters stay the same. -/
instance : SMul Renaming (Cache K V σ B) where
  smul π c := { c with
    store := π • c.store
    failures := π • c.failures
    inFlight := π • c.inFlight }

/-- A renamed cache has the same configuration. -/
@[simp] theorem smul_config (c : Cache K V σ B) : (π • c).config = c.config := rfl

/-- The store of a renamed cache. -/
@[simp] theorem smul_store (c : Cache K V σ B) : (π • c).store = π • c.store := rfl

/-- The remembered failures of a renamed cache. -/
@[simp] theorem smul_failures (c : Cache K V σ B) : (π • c).failures = π • c.failures := rfl

/-- The claims of a renamed cache. -/
@[simp] theorem smul_inFlight (c : Cache K V σ B) : (π • c).inFlight = π • c.inFlight := rfl

/-- A cache with nothing in it holds nothing that could be renamed. -/
theorem smul_ofConfig (config : Config K V σ B) : π • ofConfig config = ofConfig config := rfl

/-- Renaming commutes with counting an event. -/
theorem smul_count (c : Cache K V σ B) (e : Metrics.Event) :
    π • c.count e = (π • c).count e := rfl

variable [DecidableEq K]

/-- A renamed cache answers with the renamed value. -/
theorem published_smul [ToString K] (c : Cache K V σ B) (k : K) :
    (π • c).published k = π • c.published k := by
  have hcheck : (π • c).checkKey k = c.checkKey k := rfl
  rw [published, hcheck, published]
  cases c.checkKey k with
  | error e => rfl
  | ok u => exact congrArg Except.ok (Table.get?_smul c.store k)

section Equality

variable [BEq V] [RenamesAlike V]

/-- Inserting a renamed value into a renamed cache. -/
theorem insert_smul [ToString K] (c : Cache K V σ B) (k : K) (v : V) :
    (π • c).insert k (π • v) = ((c.insert k v).1, π • (c.insert k v).2) := by
  have hcheck : (π • c).checkKey k = c.checkKey k := rfl
  rw [insert, hcheck, insert]
  cases c.checkKey k with
  | error e => rfl
  | ok u =>
      simp only [smul_store, Table.get?_smul]
      cases c.store.get? k with
      | some existing => simp [beq_smul]
      | none =>
          have hstore := Table.smul_insert (π := π) c.store k v
          have hfailures := Table.smul_erase (π := π) c.failures k
          simp only [Option.smul_none, ← hstore, smul_failures, ← hfailures]
          rfl

/-- A renamed entry is in conflict with a renamed cache if and only if the entry is with the
cache. -/
theorem conflicts_smul (c : Cache K V σ B) (entry : K × V) :
    (π • c).conflicts (entry.1, π • entry.2) = c.conflicts entry := by
  rw [conflicts, smul_store, Table.get?_smul, conflicts]
  cases c.store.get? entry.1 with
  | none => rfl
  | some existing => simp [beq_smul]

/-- Publishing renamed entries into a renamed cache. -/
theorem publish_smul (c : Cache K V σ B) (entries : List (K × V)) :
    (π • c).publish (entries.map fun p => (p.1, π • p.2)) =
      ((c.publish entries).1, π • (c.publish entries).2) := by
  have hany : (entries.map fun p => (p.1, π • p.2)).any (π • c).conflicts =
      entries.any c.conflicts := by
    rw [List.any_map]
    congr 1
    funext p
    exact c.conflicts_smul p
  have hfresh : (entries.map fun p => (p.1, π • p.2)).filter
        (fun entry => !(π • c).store.contains entry.1) =
      (entries.filter fun entry => !c.store.contains entry.1).map fun p => (p.1, π • p.2) := by
    rw [List.filter_map]
    congr 2
    funext p
    simp
  rw [publish, hany, publish]
  split
  · rfl
  · have hkeys (l : List (K × V)) :
        (l.map fun p => (p.1, π • p.2)).map Prod.fst = l.map Prod.fst := by
      simp
    simp only [hfresh, hkeys]
    rw [smul_store, smul_failures, ← Table.smul_insertAll, ← Table.smul_eraseAll]
    rfl

end Equality

/-! ### Requests for derived values -/

/-- A renamed cache replays the renamed failure. -/
theorem replay_smul (c : Cache K V σ B) (k : K) : (π • c).replay k = π • c.replay k := by
  rw [replay, smul_config, smul_failures, Table.get?_smul, replay]
  cases c.config.cachesFailures with
  | false => rfl
  | true => cases c.failures.get? k <;> rfl

/-- Renaming commutes with remembering an error. -/
theorem smul_remember (c : Cache K V σ B) (k : K) (e : RequestError) :
    π • c.remember k e = (π • c).remember k (π • e) := by
  cases e with
  | violation e => rfl
  | conflict key => rfl
  | failure f =>
      rw [smul_failure, remember, remember, smul_config, smul_failures, Table.contains_smul]
      split
      · have hfailures := Table.smul_insert (π := π) c.failures k f
        rw [← hfailures]
        rfl
      · rfl

/-- The part of a request that comes before the claim. -/
theorem request_smul [ToString K] (c : Cache K V σ B) (k : K) :
    (π • c).request k = π • c.request k := by
  have hcheck : (π • c).checkKey k = c.checkKey k := rfl
  rw [request, hcheck, request]
  cases c.checkKey k with
  | error e => rfl
  | ok u =>
      rw [← smul_count]
      simp only [smul_store, Table.get?_smul, replay_smul]
      cases (c.count .getCall).store.get? k with
      | some v => rfl
      | none =>
          rcases (c.count .getCall).replay k with ⟨_ | f, c'⟩
          · have hreadOnly : ((π • c').count .getMiss).isReadOnly =
                (c'.count .getMiss).isReadOnly := rfl
            simp only [Option.smul_none, Prod.smul_mk, hreadOnly]
            split <;> rfl
          · rfl

/-- A renaming acts on the thread that holds a claim and on the cache that a claim results in. -/
instance : SMul Renaming (ClaimOutcome (Cache K V σ B)) where
  smul π
    | .claimed c => .claimed (π • c)
    | .reentrant => .reentrant
    | .held owner => .held (π • owner)

/-- A renamed thread reaches for a key of a renamed cache. -/
theorem claim_smul (c : Cache K V σ B) (k : K) (t : ThreadId) :
    (π • c).claim k (π • t) = π • c.claim k t := by
  rw [claim, smul_inFlight, Table.get?_smul, claim]
  cases c.inFlight.get? k with
  | none =>
      have hclaims := Table.smul_insert (π := π) c.inFlight k t
      simp only [Option.smul_none, ← hclaims]
      rfl
  | some owner =>
      simp only [Option.smul_some, smul_left_cancel_iff]
      split <;> rfl

/-- Renaming commutes with giving a claim back. -/
theorem smul_release (c : Cache K V σ B) (k : K) : π • c.release k = (π • c).release k := by
  have hclaims := Table.smul_erase (π := π) c.inFlight k
  rw [release, release, smul_inFlight, ← hclaims]
  rfl

/-- The second look, once a key is claimed. -/
theorem recheck_smul (c : Cache K V σ B) (k : K) : (π • c).recheck k = π • c.recheck k := by
  rw [recheck, smul_store, Table.get?_smul, replay_smul, recheck]
  cases c.store.get? k with
  | some v => rfl
  | none => rcases c.replay k with ⟨_ | f, c'⟩ <;> rfl

end Cache

/-- Several renamed threads make a request. -/
theorem Machine.requestAll_smul [DecidableEq K] [ToString K] (k : K) (ts : List ThreadId)
    (c : Cache K V σ B) : Machine.requestAll k (ts.map (π • ·)) (π • c) =
      (((Machine.requestAll k ts c).1.1.map (π • ·), (Machine.requestAll k ts c).1.2.map (π • ·)),
        π • (Machine.requestAll k ts c).2) := by
  induction ts generalizing c with
  | nil => rfl
  | cons t rest ih =>
      rw [List.map_cons, requestAll, Cache.request_smul, requestAll]
      rcases c.request k with ⟨answer, c'⟩
      simp only [Prod.smul_mk, ih]
      cases answer <;> rfl

end DerivationCache
