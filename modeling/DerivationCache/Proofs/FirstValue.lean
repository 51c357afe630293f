import DerivationCache.Proofs.KeyCourse

/-!
# The first value of a key

The cell of a placeholder is handed out with the stand-in, and values that contain it go wherever
the pass sends them. It is written as a side effect of recording: the first value that is recorded
for the key after the placeholder was issued fills the cell, and nothing else ever does.

From the moment of its issue a placeholder is in one of three stages. It is awaited as long as its
key is neither given a value nor dropped with the entries of its context. If a value is recorded
first, the cell has received it, and keeps it. If the context is cleared first, nobody awaits the
cell any more, and it stays empty for ever, since a later request for the key is answered with a
fresh placeholder.

## Main results

* `World.Admitted.record_awaited`: a value is never refused for a key that awaits a cell.
* `World.Shift.lost_lasts`: a cell that nobody awaits stays empty.
* `CellCourse.next`: what a step does to the course of a cell.
* `cell_receives_first_value`: what a cell holds at every moment of any run.
-/

namespace DerivationCache

variable {K N V σ B : Type} [DecidableEq K]

/-! ### Reading a cell -/

namespace Cells

/-- Reading a cell gives the value that it has received. -/
theorem read_eq_ok_iff (c : Cells V) (h : CellId) (v : V) :
    c.read h = .ok v ↔ c.get? h = some v := by
  rw [read]
  split <;> simp_all

/-- Reading fails as long as the cell is empty. -/
theorem read_eq_error_iff (c : Cells V) (h : CellId) :
    c.read h = .error .placeholderUnresolved ↔ c.get? h = none := by
  rw [read]
  split <;> simp_all

/-- A cell that is not filled is empty. -/
theorem isFilled_eq_false_iff (c : Cells V) (h : CellId) :
    c.isFilled h = false ↔ c.get? h = none := by
  simp [isFilled]

/-- A cell is read from its values alone. -/
theorem read_congr {c c' : Cells V} {h : CellId}
    (hv : ∀ v, c.read h = .ok v ↔ c'.read h = .ok v) : c.read h = c'.read h := by
  have hget : c.get? h = c'.get? h := by
    ext v
    rw [← read_eq_ok_iff, ← read_eq_ok_iff, hv]
  rw [read, read, hget]

end Cells

/-! ### Cells that are awaited, and cells that are not -/

namespace World

/-- The cell exists and is empty, and no key of any context awaits it. -/
structure Lost (w : World K N V σ B) (cell : CellId) : Prop where
  made : cell.index < w.cells.size
  empty : w.cells.get? cell = none
  unawaited : ∀ y l, ¬ w.Awaits y l cell

/-- A cell that nobody awaits stays empty, since placeholders are issued with fresh cells. -/
theorem Shift.lost_lasts {w w' : World K N V σ B} {e : Effect K V} (h : w.Shift w' e)
    {cell : CellId} (hlost : w.Lost cell) : w'.Lost cell where
  made := by
    cases h with
    | quiet states cells => exact cells ▸ hlost.made
    | newCell states cells =>
        rw [cells, Cells.size_alloc]
        exact Nat.lt_succ_of_lt hlost.made
    | clear x states cells => exact cells ▸ hlost.made
    | mark x k unseen states cells => exact cells ▸ hlost.made
    | issue x k p pending fresh made states cells =>
        rw [cells, Cells.size_alloc]
        exact Nat.lt_succ_of_lt hlost.made
    | record x k v states cells =>
        rw [cells, Cells.size_resolve]
        exact hlost.made
  empty := by
    rcases h.cells_source with hsame | ⟨x, k, v, p, -, hp, hfill⟩
    · rw [hsame, hlost.empty]
    · have hne : p.cell ≠ cell := fun hcell => hlost.unawaited x k ⟨p, hp, hcell⟩
      rw [hfill, Cells.get?_fill_of_ne hne, hlost.empty]
  unawaited y l hawaits := by
    rcases h.awaits_source hawaits with hold | ⟨p, rfl, rfl⟩
    · exact hlost.unawaited y l hold
    · cases h with
      | issue _ _ _ _ fresh _ _ _ =>
          have hlt := hlost.made
          rw [fresh] at hlt
          exact Nat.lt_irrefl _ hlt

/-- A cell that is awaited for a key is lost when the key is dropped. -/
theorem Awaiting.lost {w w' : World K N V σ B} (h : w.Awaiting) {x : ContextId} {k : K}
    {p : Placeholder V} (hp : w.keyState x k = some (.placeholderIssued p))
    (hshift : w.Shift w' (.clear x)) : w'.Lost p.cell := by
  have hawaits : w.Awaits x k p.cell := ⟨p, hp, rfl⟩
  cases hshift with
  | clear _ states cells =>
      refine ⟨cells ▸ h.made hawaits, by rw [cells, h.empty hawaits], fun y l hy => ?_⟩
      obtain ⟨q, hq, hcell⟩ := hy
      rw [states] at hq
      split at hq
      · simp at hq
      · rename_i hyx
        exact hyx (h.sole ⟨q, hq, hcell⟩ hawaits).1

variable [BEq V] [ToString K]

/-- A value is never refused for a key that awaits a cell. -/
theorem Admitted.record_awaited {w : World K N V σ B} (h : w.Admitted) {x : ContextId} {k : K}
    {p : Placeholder V} (hp : w.keyState x k = some (.placeholderIssued p)) (v : V)
    (overwrite : Bool) : ∃ w', w.record x k v overwrite = some (.ok (), w') := by
  cases hx : w.context? x with
  | none => simp [keyState, hx] at hp
  | some context =>
      have hcheck := h.checkKey hx hp
      rw [keyState_of_context? hx] at hp
      simp [record, hx, hcheck, Context.record, hp]

/-- A value that is recorded for a key that awaits a cell is what the cell receives. -/
theorem Awaiting.record_fills {w w' : World K N V σ B} (h : w.Awaiting) {x : ContextId} {k : K}
    {p : Placeholder V} (hp : w.keyState x k = some (.placeholderIssued p)) {v : V}
    {overwrite : Bool} (hrecord : w.record x k v overwrite = some (.ok (), w')) :
    w'.cells.get? p.cell = some v := by
  have hawaits : w.Awaits x k p.cell := ⟨p, hp, rfl⟩
  have hcells : w'.cells = w.cells.fill p.cell v := by
    cases records_of_record hrecord with
    | unchanged found resolved same =>
        rw [keyState_of_context? found] at hp
        simp [hp] at resolved
    | written found accepted unresolved =>
        rw [keyState_of_context? found] at hp
        rw [hp, Cells.resolve]
  rw [hcells, Cells.get?_fill_of_empty (h.made hawaits) (h.empty hawaits)]

end World

/-! ### What a step does -/

namespace Machine

variable [BEq V] [ToString K]

/-- The next step records the value for the key: a routine adds it or overwrites with it, or the
builder call of the key returns it, and it is not refused. -/
def Records (m : Machine K N V σ B) (x : ContextId) (k : K) (v : V) : Prop :=
  ∃ overwrite w, m.demand = .record x k v overwrite ∧
    m.world.record x k v overwrite = some (.ok (), w)

omit [DecidableEq K] [BEq V] [ToString K] in
/-- The next step drops the entries of the context. -/
def Drops (m : Machine K N V σ B) (x : ContextId) : Prop := m.demand = .clear x

/-- A step that records a value drops nothing. -/
theorem Records.not_drops {m : Machine K N V σ B} {x : ContextId} {k : K} {v : V}
    (h : m.Records x k v) : ¬ m.Drops x := by
  obtain ⟨overwrite, w, hdemand, -⟩ := h
  intro hdrops
  rw [Drops, hdemand] at hdrops
  simp at hdrops

/-- A step records one value only. -/
theorem Records.functional {m : Machine K N V σ B} {x : ContextId} {k : K} {u v : V}
    (hu : m.Records x k u) (hv : m.Records x k v) : u = v := by
  obtain ⟨o, w, hdemand, -⟩ := hu
  obtain ⟨o', w', hdemand', -⟩ := hv
  rw [hdemand] at hdemand'
  exact (Demand.record.inj hdemand').2.2.1

variable [DecidableEq N] {body : B → ContextId → K → Body K N V σ B} {m m' : Machine K N V σ B}
  {x : ContextId} {k : K}

/-- Recording a value leaves the world that the record leaves. -/
theorem world_of_record {v : V} {overwrite : Bool} {r : Except Violation Unit}
    {w : World K N V σ B} (hdemand : m.demand = .record x k v overwrite)
    (hrecord : m.world.record x k v overwrite = some (r, w)) (hstep : m.step body = some m') :
    m'.world = w := by
  rcases records_or_returns hdemand with ⟨next, hfocus⟩ | ⟨hfocus, frame, rest, hstack, rfl, rfl⟩
  · obtain ⟨a, hanswer⟩ := answer_of_step hfocus hstep
    have hsame : m.world.record x k v overwrite = some (a, m'.world) := hanswer
    exact (Prod.mk.inj (Option.some.inj (hsame.symm.trans hrecord))).2
  · obtain ⟨w₀, focus, stack⟩ := m
    obtain rfl : focus = _ := hfocus
    obtain rfl : stack = _ := hstack
    obtain rfl : true = overwrite := (Demand.record.inj hdemand).2.2.2
    rw [step] at hstep
    simp only [stepRun, bind, Option.bind_eq_some_iff] at hstep
    obtain ⟨⟨answer, w'⟩, hanswer, hstep⟩ := hstep
    obtain ⟨-, rfl⟩ := Prod.mk.inj (Option.some.inj (hanswer.symm.trans hrecord))
    cases answer <;> exact (congrArg Machine.world (Option.some.inj hstep)).symm

/-- Clearing a context drops its entries and does nothing else. -/
theorem Drops.shift (h : m.Drops x) (hstep : m.step body = some m') :
    m.world.Shift m'.world (.clear x) := by
  have hfocus : ∃ next, m.focus = .run (.perform (.clear x) next) := by
    obtain ⟨w, focus, stack⟩ := m
    rw [Drops, demand] at h
    split at h
    · rename_i r next hfocus
      obtain rfl : focus = _ := hfocus
      cases r <;> simp only [Request.demand, Demand.clear.injEq, reduceCtorEq] at h
      subst h
      exact ⟨next, rfl⟩
    all_goals simp at h
  obtain ⟨next, hfocus⟩ := hfocus
  obtain ⟨a, hanswer⟩ := answer_of_step hfocus hstep
  obtain ⟨context, hx, hworld⟩ := Option.map_eq_some_iff.1 hanswer
  obtain ⟨-, hworld⟩ := Prod.mk.inj hworld
  rw [← hworld]
  refine .clear x (fun y l => ?_) rfl
  rw [World.keyState_setContext hx]
  by_cases hxy : x = y
  · rw [if_pos hxy, if_pos hxy.symm]
    rfl
  · rw [if_neg hxy, if_neg (Ne.symm hxy)]

end Machine

/-! ### The course of a cell -/

section Runs

variable [DecidableEq N] [BEq V] [ToString K] {body : B → ContextId → K → Body K N V σ B}

/-- The step from this moment issues the placeholder for the key. -/
structure IssuedAt (e : Interleaving body) (i : Nat) (x : ContextId) (k : K) (p : Placeholder V) :
    Prop where
  asks : (e.state i).IssuesFor x k
  made : (e.state (i + 1)).world.keyState x k = some (.placeholderIssued p)

/-- No step between the two moments records a value for the key or drops the entries of its
context. -/
def Untouched (e : Interleaving body) (i j : Nat) (x : ContextId) (k : K) : Prop :=
  ∀ l, i < l → l < j → ¬ (e.state l).Drops x ∧ ∀ u, ¬ (e.state l).Records x k u

/-- The step from the second moment records the value for the key, as the first one since the first
moment, and the entries of the context were not dropped in between. -/
structure FirstRecorded (e : Interleaving body) (i j : Nat) (x : ContextId) (k : K) (v : V) :
    Prop where
  later : i < j
  untouched : Untouched e i j x k
  records : (e.state j).Records x k v

/-- One more step that leaves the key alone. -/
theorem Untouched.succ {e : Interleaving body} {i n : Nat} {x : ContextId} {k : K}
    (h : Untouched e i n x k) (hdrops : ¬ (e.state n).Drops x)
    (hrecords : ∀ u, ¬ (e.state n).Records x k u) : Untouched e i (n + 1) x k := by
  intro l hil hln
  rcases Nat.lt_succ_iff_lt_or_eq.1 hln with hln | rfl
  · exact h l hil hln
  · exact ⟨hdrops, hrecords⟩

/-- There is only one first value. -/
theorem FirstRecorded.unique {e : Interleaving body} {i j j' : Nat} {x : ContextId} {k : K}
    {u v : V} (hu : FirstRecorded e i j x k u) (hv : FirstRecorded e i j' x k v) :
    j = j' ∧ u = v := by
  rcases Nat.lt_trichotomy j j' with hlt | rfl | hlt
  · exact absurd hu.records ((hv.untouched j hu.later hlt).2 u)
  · exact ⟨rfl, hu.records.functional hv.records⟩
  · exact absurd hv.records ((hu.untouched j' hv.later hlt).2 v)

/-- No value is the first one if the entries of the context were dropped before. -/
theorem not_firstRecorded_of_drops {e : Interleaving body} {i c : Nat} {x : ContextId} {k : K}
    (later : i < c) (drops : (e.state c).Drops x) (untouched : Untouched e i c x k) (j : Nat)
    (v : V) : ¬ FirstRecorded e i j x k v := by
  intro hfirst
  rcases Nat.lt_trichotomy j c with hlt | rfl | hlt
  · exact (untouched j hfirst.later hlt).2 v hfirst.records
  · exact hfirst.records.not_drops drops
  · exact (hfirst.untouched c later hlt).1 drops

/-- What has become of the cell of a placeholder that was issued at the first moment. -/
inductive CellCourse (e : Interleaving body) (i : Nat) (x : ContextId) (k : K) (p : Placeholder V)
    (n : Nat) : Prop where
  | awaited (state : (e.state n).world.keyState x k = some (.placeholderIssued p))
      (untouched : Untouched e i n x k)
  | received {j : Nat} {v : V} (before : j < n) (first : FirstRecorded e i j x k v)
      (cell : (e.state n).world.cells.get? p.cell = some v)
  | dropped {c : Nat} (later : i < c) (before : c < n) (drops : (e.state c).Drops x)
      (untouched : Untouched e i c x k) (lost : (e.state n).world.Lost p.cell)

variable (e : Interleaving body) {i n : Nat} {x : ContextId} {k : K} {p : Placeholder V}

/-- A value that is to be recorded for a key that awaits a cell is recorded. -/
theorem records_of_awaited (hn : n < e.length)
    (hp : (e.state n).world.keyState x k = some (.placeholderIssued p)) {v : V} {overwrite : Bool}
    (hdemand : (e.state n).demand = .record x k v overwrite) : (e.state n).Records x k v := by
  have hadmitted := interleaving_admitted e (Nat.le_of_lt hn)
  obtain ⟨w, hrecord⟩ := hadmitted.record_awaited hp v overwrite
  exact ⟨overwrite, w, hdemand, hrecord⟩

/-- What a step does to the course of a cell: it stays awaited unless the step records a value for
the key, which the cell receives, or drops the entries of the context. -/
theorem CellCourse.next (hin : i < n) (hn : n < e.length) (h : CellCourse e i x k p n) :
    CellCourse e i x k p (n + 1) := by
  have hobeys := interleaving_obeys e hn
  have hawaiting := interleaving_awaiting e (Nat.le_of_lt hn)
  obtain ⟨m', hstep, hworld⟩ := e.goes n hn
  obtain ⟨effect, hshift, hpermits, -⟩ := hobeys.shift
  have hnext : n < n + 1 := Nat.lt_succ_self n
  cases h with
  | received before first cell =>
      exact .received (Nat.lt_succ_of_lt before) first (hshift.cells_keep cell)
  | dropped later before drops untouched lost =>
      exact .dropped later (Nat.lt_succ_of_lt before) drops untouched (hshift.lost_lasts lost)
  | awaited state untouched =>
      by_cases hdrops : (e.state n).Drops x
      · have hdropped := hawaiting.lost state (hdrops.shift hstep)
        exact .dropped hin hnext hdrops untouched (hworld ▸ hdropped)
      by_cases hrecords : ∃ v, (e.state n).Records x k v
      · obtain ⟨v, hv⟩ := hrecords
        have ⟨overwrite, w, hdemand, hrecord⟩ := hv
        have hfilled := hawaiting.record_fills state hrecord
        rw [← Machine.world_of_record hdemand hrecord hstep, ← hworld] at hfilled
        exact .received hnext ⟨hin, untouched, hv⟩ hfilled
      · have hrecords := not_exists.1 hrecords
        refine .awaited ?_ (untouched.succ hdrops hrecords)
        rcases hshift.issued_lasts hawaiting state with hsame | ⟨v, rfl, -, -⟩ | rfl
        · exact hsame
        · obtain ⟨overwrite, hdemand, -⟩ := hpermits
          exact absurd (records_of_awaited e hn state hdemand) (hrecords v)
        · exact absurd hpermits hdrops

/-- At every moment after its issue, a cell is awaited, has received its value, or is lost. -/
theorem cellCourse (issued : IssuedAt e i x k p) (hin : i < n) (hn : n ≤ e.length) :
    CellCourse e i x k p n := by
  induction hin with
  | refl => exact .awaited issued.made fun l hil hli => by omega
  | step hin ih => exact (ih (Nat.le_of_succ_le hn)).next e hin hn

/-- What a cell has is the first value that was recorded for its key. -/
theorem CellCourse.get?_eq_some_iff (h : CellCourse e i x k p n) (hn : n ≤ e.length) (v : V) :
    (e.state n).world.cells.get? p.cell = some v ↔ ∃ j < n, FirstRecorded e i j x k v := by
  have hempty (hcell : (e.state n).world.cells.get? p.cell = none)
      (hnone : ∀ j < n, ¬ FirstRecorded e i j x k v) :
      (e.state n).world.cells.get? p.cell = some v ↔ ∃ j < n, FirstRecorded e i j x k v := by
    rw [hcell]
    exact ⟨fun hv => by simp at hv, fun ⟨j, hj, hfirst⟩ => absurd hfirst (hnone j hj)⟩
  cases h with
  | awaited state untouched =>
      have hawaits : (e.state n).world.Awaits x k p.cell := ⟨p, state, rfl⟩
      refine hempty ((interleaving_awaiting e hn).empty hawaits) fun j hj hfirst => ?_
      exact (untouched j hfirst.later hj).2 v hfirst.records
  | received before first cell =>
      rw [cell]
      constructor
      · intro hv
        obtain rfl := Option.some.inj hv
        exact ⟨_, before, first⟩
      · rintro ⟨j, -, hfirst⟩
        rw [(first.unique hfirst).2]
  | dropped later before drops untouched lost =>
      exact hempty lost.empty fun j _ => not_firstRecorded_of_drops later drops untouched j v

/-- A value that is to be recorded for an untouched key is recorded. -/
theorem CellCourse.records (h : CellCourse e i x k p n) (hn : n < e.length)
    (untouched : Untouched e i n x k) {v : V} {overwrite : Bool}
    (hdemand : (e.state n).demand = .record x k v overwrite) : (e.state n).Records x k v := by
  cases h with
  | awaited state _ => exact records_of_awaited e hn state hdemand
  | received before first _ => exact absurd first.records ((untouched _ first.later before).2 _)
  | dropped later before drops _ _ => exact absurd drops (untouched _ later before).1

/-- What a reader of the cell is given is the first value that was recorded for the key. -/
theorem IssuedAt.reads (issued : IssuedAt e i x k p) (hin : i < n) (hn : n ≤ e.length) (v : V) :
    (e.state n).world.cells.read p.cell = .ok v ↔ ∃ j < n, FirstRecorded e i j x k v := by
  rw [Cells.read_eq_ok_iff]
  exact (cellCourse e issued hin hn).get?_eq_some_iff e hn v

/-- The cell is empty as long as no value was recorded for the key. -/
theorem IssuedAt.empty_iff (issued : IssuedAt e i x k p) (hin : i < n) (hn : n ≤ e.length) :
    (e.state n).world.cells.get? p.cell = none ↔ ∀ j < n, ∀ v, ¬ FirstRecorded e i j x k v := by
  constructor
  · intro hnone j hj v hfirst
    have hread := (issued.reads e hin hn v).2 ⟨j, hj, hfirst⟩
    rw [Cells.read_eq_ok_iff, hnone] at hread
    simp at hread
  · intro hnever
    refine Option.eq_none_iff_forall_ne_some.2 fun v hv => ?_
    obtain ⟨j, hj, hfirst⟩ := (issued.reads e hin hn v).1 ((Cells.read_eq_ok_iff ..).2 hv)
    exact hnever j hj v hfirst

/-- A step that records no value for the key leaves the first one as it is. -/
theorem exists_firstRecorded_succ (hnever : ∀ v, ¬ (e.state n).Records x k v) (v : V) :
    (∃ j < n + 1, FirstRecorded e i j x k v) ↔ ∃ j < n, FirstRecorded e i j x k v := by
  constructor
  · rintro ⟨j, hj, hfirst⟩
    have hne : j ≠ n := fun hjn => hnever v (hjn ▸ hfirst.records)
    exact ⟨j, by omega, hfirst⟩
  · rintro ⟨j, hj, hfirst⟩
    exact ⟨j, by omega, hfirst⟩

/-- What the cell of a placeholder holds, which was issued for the key at the first moment. -/
structure ReceivesFirst (e : Interleaving body) (i : Nat) (x : ContextId) (k : K)
    (p : Placeholder V) : Prop where
  /-- It has a value from the moment one is recorded for the key, and it is the first one. -/
  filled : ∀ n v, i < n → n ≤ e.length →
    ((e.state n).world.cells.read p.cell = .ok v ↔ ∃ j < n, FirstRecorded e i j x k v)
  /-- It has none as long as none was recorded, and this is what its readers are told. -/
  unfilled : ∀ n, i < n → n ≤ e.length →
    ((e.state n).world.cells.isFilled p.cell = false ↔ ∀ j < n, ∀ v, ¬ FirstRecorded e i j x k v) ∧
    ((e.state n).world.cells.read p.cell = .error .placeholderUnresolved ↔
      ∀ j < n, ∀ v, ¬ FirstRecorded e i j x k v)
  /-- The first addition, overwriting or return is not refused, and the cell has its value when it
  is done. -/
  resolved : ∀ j v overwrite, i < j → j < e.length → Untouched e i j x k →
    (e.state j).demand = .record x k v overwrite →
    FirstRecorded e i j x k v ∧ (e.state (j + 1)).world.cells.read p.cell = .ok v
  /-- What it has it keeps. -/
  kept : ∀ n n' v, i < n → n ≤ n' → n' ≤ e.length →
    (e.state n).world.cells.read p.cell = .ok v → (e.state n').world.cells.read p.cell = .ok v
  /-- Nothing but recording a value for its key touches it. -/
  others : ∀ n, i < n → n < e.length → (∀ v, ¬ (e.state n).Records x k v) →
    (e.state (n + 1)).world.cells.read p.cell = (e.state n).world.cells.read p.cell
  /-- If the entries of the context are dropped first, it stays empty for ever. -/
  dropped : ∀ c n, i < c → c < n → n ≤ e.length → (e.state c).Drops x → Untouched e i c x k →
    (e.state n).world.cells.read p.cell = .error .placeholderUnresolved
  /-- When a commit of the context is decided, it has a value, unless the entries of the context
  were dropped. -/
  committed : ∀ n b w, i < n → n ≤ e.length → (∀ l, i < l → l < n → ¬ (e.state l).Drops x) →
    (e.state n).world.commit x = some (.ok b, w) → ∃ v, w.cells.read p.cell = .ok v

/-- In any run of any machines, the cell of a placeholder receives the first value that is recorded
for its key, and nothing else. -/
theorem cell_receives_first_value (issued : IssuedAt e i x k p) : ReceivesFirst e i x k p := by
  have course (n : Nat) (hin : i < n) (hn : n ≤ e.length) := cellCourse e issued hin hn
  exact
    { filled := fun n v hin hn => issued.reads e hin hn v
      unfilled := by
        intro n hin hn
        rw [Cells.isFilled_eq_false_iff, Cells.read_eq_error_iff]
        exact ⟨issued.empty_iff e hin hn, issued.empty_iff e hin hn⟩
      resolved := by
        intro j v overwrite hij hj untouched hdemand
        have hrecords := (course j hij (Nat.le_of_lt hj)).records e hj untouched hdemand
        have hfirst : FirstRecorded e i j x k v := ⟨hij, untouched, hrecords⟩
        exact ⟨hfirst, (issued.reads e (by omega) hj v).2 ⟨j, by omega, hfirst⟩⟩
      kept := by
        intro n n' v hin hnn' hn' hread
        obtain ⟨j, hj, hfirst⟩ := (issued.reads e hin (by omega) v).1 hread
        exact (issued.reads e (by omega) hn' v).2 ⟨j, by omega, hfirst⟩
      others := by
        intro n hin hn hnever
        apply Cells.read_congr
        intro v
        rw [issued.reads e (by omega) hn, issued.reads e hin (by omega),
          exists_firstRecorded_succ e hnever]
      dropped := by
        intro c n hic hcn hn drops untouched
        rw [Cells.read_eq_error_iff, issued.empty_iff e (by omega) hn]
        exact fun j _ v => not_firstRecorded_of_drops hic drops untouched j v
      committed := by
        intro n b w hin hn uncleared hcommit
        obtain ⟨-, -, -, hcells, hready⟩ := World.commit_ok hcommit
        rw [hcells]
        cases course n hin hn with
        | awaited state _ =>
            obtain ⟨v, hv⟩ := hready k _ state
            simp at hv
        | received _ _ cell => exact ⟨_, (Cells.read_eq_ok_iff ..).2 cell⟩
        | dropped later before drops _ _ => exact absurd drops (uncleared _ later before) }

end Runs

/-! ### A placeholder that is dropped -/

namespace DroppedPlaceholder

/-- No builder is ever called. -/
def body (_ : Unit) (_ : ContextId) (_ : Nat) : Body Nat Unit Nat Unit Unit := .done (.ok 0)

/-- Stand-ins are told apart by their cells. -/
def config : Config Nat Nat Unit Unit where
  placeholders := some fun _ cell client => ((.forwarding, 100 + cell.index), client)

/-- A placeholder is issued, resolved and dropped. The next one for the key is dropped before a
value is recorded. -/
def main : Machine Nat Unit Nat Unit Unit :=
  .start { client := () } (.perform (.newCache config) fun c =>
    .perform (.createContext c none none) fun x =>
    .build x 7 fun _ => .build x 7 fun _ =>
    .perform (.record x 7 5 false) fun _ => .perform (.record x 7 6 true) fun _ =>
    .perform (.clear x) fun _ =>
    .build x 7 fun _ => .build x 7 fun _ =>
    .perform (.clear x) fun _ => .perform (.record x 7 8 false) fun _ =>
    .perform (.commit x) fun _ => .done (.ok 0))

theorem main_runs : ∀ i < 20, ((main.run body i).step body).isSome = true := by
  decide +kernel

/-- The moments of this run. -/
def session : Interleaving body :=
  main.runExecution 20 ⟨(), rfl⟩ (fun _ m' h => ⟨m', h, rfl⟩) main_runs

/-- The first cell keeps the value that was added first, although it is overwritten and its context
cleared. The second one is dropped, and the value that is recorded afterwards does not reach it. -/
theorem session_receives_first :
    IssuedAt session 6 ⟨0⟩ 7 ⟨.forwarding, 100, ⟨0⟩⟩ ∧
      IssuedAt session 15 ⟨0⟩ 7 ⟨.forwarding, 101, ⟨1⟩⟩ ∧
      ReceivesFirst session 6 ⟨0⟩ 7 ⟨.forwarding, 100, ⟨0⟩⟩ ∧
      ReceivesFirst session 15 ⟨0⟩ 7 ⟨.forwarding, 101, ⟨1⟩⟩ ∧
      (session.state 20).world.cells.read ⟨0⟩ = .ok 5 ∧
      (session.state 20).world.cells.read ⟨1⟩ = .error .placeholderUnresolved := by
  have first : IssuedAt session 6 ⟨0⟩ 7 ⟨.forwarding, 100, ⟨0⟩⟩ := ⟨⟨⟨_, rfl⟩, rfl⟩, rfl⟩
  have second : IssuedAt session 15 ⟨0⟩ 7 ⟨.forwarding, 101, ⟨1⟩⟩ := ⟨⟨⟨_, rfl⟩, rfl⟩, rfl⟩
  exact ⟨first, second, cell_receives_first_value _ first, cell_receives_first_value _ second,
    rfl, rfl⟩

end DroppedPlaceholder

end DerivationCache
