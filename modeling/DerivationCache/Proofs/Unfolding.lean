import DerivationCache.Proofs.Closure
import DerivationCache.Script.Value
import Mathlib.Data.List.Forall2

/-!
# Unfolding of cyclic values

A value that links to cells stands for a tree, which may be infinite. `Cells.Unfolds` says what
the tree looks like down to a depth: a link is replaced by what its cell has received, and that
does not count as a level.

Keys with dependencies stand for trees too (`reference`): the label of the key, and below it the
trees of the dependencies. Concrete values differ with the order in which keys were requested,
since other keys become links, and other cells are linked to. What they have in common is
`Stands`: a value stands for a key if it is a link to a cell that was handed out for the key, or
lists the label and values that stand for the dependencies. If in all cells are lists that stand
for the keys of the cells, `Stands` is a bisimulation between values and keys, and both unfold
to the same trees.

## Main results

* `World.Denotes.obeys`: a step that records lists which stand for their keys keeps all values
  standing for their keys.
* `World.Denotes.unfolds_iff`: a value that stands for a key unfolds to the reference tree of the
  key, at every depth, and to nothing else.
-/

namespace DerivationCache

open Script

/-! ### Links -/

namespace Script.Value

mutual

/-- The cells that a value links to. -/
def links : Value → List CellId
  | forward cell => [cell]
  | list items => linksAll items
  | _ => []

/-- The cells that a list of values links to. -/
def linksAll : List Value → List CellId
  | [] => []
  | v :: rest => v.links ++ linksAll rest

end

/-- Whether a value is neither a list nor a link. -/
def isAtom : Value → Bool
  | list _ => false
  | forward _ => false
  | _ => true

/-- The links of a list are those of its items. -/
theorem mem_linksAll {h : CellId} {vs : List Value} :
    h ∈ linksAll vs ↔ ∃ v ∈ vs, h ∈ v.links := by
  induction vs with
  | nil => simp [linksAll]
  | cons v rest ih => simp [linksAll, ih]

/-- An atom links to nothing. -/
theorem links_of_isAtom {v : Value} (hv : v.isAtom = true) : v.links = [] := by
  cases v with
  | list items => simp [isAtom] at hv
  | forward cell => simp [isAtom] at hv
  | _ => simp [links]

end Script.Value

/-! ### Trees -/

/-- A tree down to some depth. -/
inductive Tree where
  /-- Here the depth was reached. -/
  | leaf
  | atom (value : Value)
  | node (children : List Tree)

/-- What a value that is not a link looks like, if lists look like this. -/
def Script.Value.Shows (lists : List Value → Tree → Prop) : Value → Tree → Prop
  | .list items, t => lists items t
  | .forward _, _ => False
  | v, t => t = .atom v

namespace Cells

/-- The value that a chain of links leads to. -/
inductive Resolves (cells : Cells Value) : Value → Value → Prop
  | here {v} (plain : ∀ h, v ≠ .forward h) : Resolves cells v v
  | follow {h u v} (filled : cells.get? h = some u) (rest : Resolves cells u v) :
      Resolves cells (.forward h) v

/-- A value unfolds to a tree of this depth. Following a link is no level of the tree. -/
def Unfolds (cells : Cells Value) : Nat → Value → Tree → Prop
  | 0, v, t => ∃ u, cells.Resolves v u ∧ u.Shows (fun _ t => t = .leaf) t
  | n + 1, v, t => ∃ u, cells.Resolves v u ∧
      u.Shows (fun items t => ∃ ts, t = .node ts ∧ List.Forall₂ (cells.Unfolds n) items ts) t

variable {cells : Cells Value}

/-- A list is what it resolves to. -/
theorem resolves_list_iff {items : List Value} {u : Value} :
    cells.Resolves (.list items) u ↔ u = .list items := by
  constructor
  · intro h
    cases h with
    | here plain => rfl
  · rintro rfl
    exact .here (by simp)

/-- A link resolves to what the value in its cell resolves to. -/
theorem resolves_forward_iff {h : CellId} {u v : Value} (filled : cells.get? h = some u) :
    cells.Resolves (.forward h) v ↔ cells.Resolves u v := by
  constructor
  · intro hv
    cases hv with
    | here plain => exact absurd rfl (plain h)
    | follow filled' rest =>
        obtain rfl := Option.some.inj (filled.symm.trans filled')
        exact rest
  · exact .follow filled

/-- A link unfolds to what the value in its cell unfolds to. -/
theorem unfolds_forward_iff {h : CellId} {u : Value} (filled : cells.get? h = some u) {n : Nat}
    {t : Tree} : cells.Unfolds n (.forward h) t ↔ cells.Unfolds n u t := by
  cases n with
  | zero => simp only [Unfolds, resolves_forward_iff filled]
  | succ n => simp only [Unfolds, resolves_forward_iff filled]

/-- At depth zero nothing is seen of a list. -/
theorem unfolds_zero_list_iff {items : List Value} {t : Tree} :
    cells.Unfolds 0 (.list items) t ↔ t = .leaf := by
  simp [Unfolds, resolves_list_iff, Value.Shows]

/-- One level deeper the items of a list are seen, each as deep as before. -/
theorem unfolds_succ_list_iff {items : List Value} {n : Nat} {t : Tree} :
    cells.Unfolds (n + 1) (.list items) t ↔
      ∃ ts, t = .node ts ∧ List.Forall₂ (cells.Unfolds n) items ts := by
  simp [Unfolds, resolves_list_iff, Value.Shows]

/-- An atom unfolds to itself, at every depth. -/
theorem unfolds_atom_iff {v : Value} (hv : v.isAtom = true) {n : Nat} {t : Tree} :
    cells.Unfolds n v t ↔ t = .atom v := by
  have hresolves (u : Value) : cells.Resolves v u ↔ u = v := by
    constructor
    · intro h
      cases h with
      | here plain => rfl
      | follow filled rest => simp [Value.isAtom] at hv
    · rintro rfl
      refine .here fun h => ?_
      rintro rfl
      simp [Value.isAtom] at hv
  cases n with
  | zero =>
      simp only [Unfolds, hresolves, exists_eq_left]
      cases v <;> simp_all [Value.isAtom, Value.Shows]
  | succ n =>
      simp only [Unfolds, hresolves, exists_eq_left]
      cases v <;> simp_all [Value.isAtom, Value.Shows]

end Cells

/-! ### Values that stand for keys -/

section Standing

variable {K N σ B : Type} (deps : K → List K) (label : K → Value)

/-- The tree that a key stands for: its label, and below it the trees of its dependencies. -/
def reference : Nat → K → Tree
  | 0, _ => .leaf
  | n + 1, k => .node (.atom (label k) :: (deps k).map (reference n))

/-- A value stands for a key: it links to a cell that the key owns, or lists the label and values
that stand for the dependencies. -/
inductive Stands (owner : CellId → K → Prop) : K → Value → Prop
  | link {k h} (owned : owner h k) : Stands owner k (.forward h)
  | node {k vs} (children : List.Forall₂ (Stands owner) (deps k) vs) :
      Stands owner k (.list (label k :: vs))

/-- A value lists the label of the key and values that stand for its dependencies. -/
def Lists (owner : CellId → K → Prop) (k : K) (v : Value) : Prop :=
  ∃ vs, v = .list (label k :: vs) ∧ List.Forall₂ (Stands deps label owner) (deps k) vs

/-- What is recorded or inserted for a key lists its label and values for its dependencies. -/
def Demand.Listing (owner : CellId → K → Prop) : Demand K Value → Prop
  | .record _ k v _ => Lists deps label owner k v
  | .insert _ k v => Lists deps label owner k v
  | _ => True

variable {deps label} {owner : CellId → K → Prop}

/-- A value that lists the dependencies of a key stands for the key. -/
theorem Lists.stands {k : K} {v : Value} (h : Lists deps label owner k v) :
    Stands deps label owner k v := by
  obtain ⟨vs, rfl, hvs⟩ := h
  exact .node hvs

variable [DecidableEq K]

variable (deps label owner) in
/-- All values that the world knows of stand for their keys: the published and the recorded ones,
those in cells, and the stand-ins. -/
structure World.Denotes (w : World K N Value σ B) : Prop where
  awaiting : w.Awaiting
  owned : ∀ {x k h}, w.Awaits x k h → owner h k
  standIns : ∀ {x k p}, w.keyState x k = some (.placeholderIssued p) →
    p.standIn = .forward p.cell
  published : ∀ {c k v}, w.stored c k = some v → Lists deps label owner k v
  recorded : ∀ {x k v}, w.keyState x k = some (.resolved v) → Lists deps label owner k v
  received : ∀ {h k v}, w.cells.get? h = some v → owner h k → Lists deps label owner k v

namespace World

/-- There are no values in an empty world. -/
theorem Denotes.empty_world (client : σ) :
    ({ client } : World K N Value σ B).Denotes deps label owner where
  awaiting := Awaiting.empty_world client
  owned := by
    rintro x k h ⟨p, hp, -⟩
    simp [keyState, context?] at hp
  standIns hp := by simp [keyState, context?] at hp
  published hv := by simp [stored, cache?] at hv
  recorded hv := by simp [keyState, context?] at hv
  received hv := by simp [Cells.get?] at hv

/-- What is given for a key stands for it. -/
theorem Gives.stands {w : World K N Value σ B} (hw : w.Denotes deps label owner)
    {x : ContextId} {k : K} {v : Value} (h : w.Gives x k v) : Stands deps label owner k v := by
  cases h with
  | published c v parent stored => exact (hw.published stored).stands
  | recorded v state => exact (hw.recorded state).stands
  | standIn p state =>
      rw [hw.standIns state]
      exact .link (hw.owned ⟨p, state, rfl⟩)

/-- A step that records lists which stand for their keys keeps all values standing for their
keys, if no cell belongs to two keys. -/
theorem Denotes.obeys {w w' : World K N Value σ B} {d : Demand K Value}
    (hw : w.Denotes deps label owner) (h : w.Obeys w' d) (hd : d.Listing deps label owner)
    (functional : ∀ {h k l}, owner h k → owner h l → k = l)
    (owned : ∀ {x k h}, w'.Awaits x k h → owner h k)
    (standIns : ∀ {x k p}, w'.keyState x k = some (.placeholderIssued p) →
      p.standIn = .forward p.cell) : w'.Denotes deps label owner := by
  obtain ⟨e, hshift, hpermits, -⟩ := h.shift
  have hrecord (x : ContextId) (k : K) (v : Value) (he : e = .record x k v) :
      Lists deps label owner k v := by
    subst he
    obtain ⟨o, rfl, -⟩ := hpermits
    exact hd
  refine ⟨hshift.awaiting hw.awaiting, owned, standIns, fun {c k v} hv => ?_,
    fun {x k v} hv => ?_, fun {cell k v} hv hk => ?_⟩
  · rcases h.source c k v hv with hv | ⟨rfl, -⟩ | ⟨x, -, -, -, hv⟩
    · exact hw.published hv
    · exact hd
    · exact hw.recorded hv
  · rcases hshift.recorded_source hv with hv | he
    · exact hw.recorded hv
    · exact hrecord x k v he
  · rcases hshift.cells_source with hsame | ⟨x, l, u, p, he, hp, hfill⟩
    · exact hw.received (by rw [← hsame, hv]) hk
    · rw [hfill] at hv
      by_cases hcell : p.cell = cell
      · subst hcell
        have ha : w.Awaits x l p.cell := ⟨p, hp, rfl⟩
        rw [Cells.get?_fill_of_empty (hw.awaiting.made ha) (hw.awaiting.empty ha)] at hv
        obtain rfl := Option.some.inj hv
        obtain rfl := functional (hw.owned ha) hk
        exact hrecord x l u he
      · rw [Cells.get?_fill_of_ne hcell] at hv
        exact hw.received hv hk

end World

/-! ### The unfolding of values that stand for keys -/

namespace World

variable {w : World K N Value σ B}

omit [DecidableEq K] in
/-- The items of a settled list are settled. -/
theorem Settled.item {items : List Value} (h : w.Settled Value.links (.list items)) {v : Value}
    (hv : v ∈ items) : w.Settled Value.links v := by
  intro cell ho
  refine h cell ?_
  induction ho with
  | link mem => exact .link (Value.mem_linksAll.2 ⟨v, hv, mem⟩)
  | content _ filled mem ih => exact .content ih filled mem

omit [DecidableEq K] in
/-- A settled link leads to a settled value. -/
theorem Settled.received {h : CellId} (hs : w.Settled Value.links (.forward h)) :
    ∃ u, w.cells.get? h = some u ∧ w.Settled Value.links u := by
  have ho : w.cells.Occurs Value.links (.forward h) h := .link (List.mem_singleton.2 rfl)
  obtain ⟨u, hu⟩ := hs h ho
  refine ⟨u, hu, fun cell hc => hs cell ?_⟩
  induction hc with
  | link mem => exact .content ho hu mem
  | content _ filled mem ih => exact .content ih filled mem

omit [DecidableEq K] in
/-- Values that stand for keys unfold to the reference trees of the keys, one by one, if each of
them does. -/
theorem forall₂_unfolds_iff {n : Nat} {ks : List K} {vs : List Value} {ts : List Tree}
    (each : ∀ {k v}, Stands deps label owner k v → w.Settled Value.links v →
      ∀ t, w.cells.Unfolds n v t ↔ t = reference deps label n k)
    (hvs : List.Forall₂ (Stands deps label owner) ks vs)
    (hs : ∀ v ∈ vs, w.Settled Value.links v) :
    List.Forall₂ (w.cells.Unfolds n) vs ts ↔ ts = ks.map (reference deps label n) := by
  induction hvs generalizing ts with
  | nil => simp
  | @cons k v ks vs hv _ ih =>
      have hhead := each hv (hs v (List.mem_cons_self ..))
      have htail (ts : List Tree) : List.Forall₂ (w.cells.Unfolds n) vs ts ↔
          ts = ks.map (reference deps label n) :=
        ih fun u hu => hs u (List.mem_cons_of_mem v hu)
      rw [List.forall₂_cons_left_iff, List.map_cons]
      constructor
      · rintro ⟨t, ts, ht, hts, rfl⟩
        rw [(hhead t).1 ht, (htail ts).1 hts]
      · rintro rfl
        exact ⟨_, _, (hhead _).2 rfl, (htail _).2 rfl, rfl⟩

/-- A value that stands for a key is a list, or a link to a cell with such a list in it. So it
is enough to say what lists unfold to. -/
theorem Denotes.unfolds_iff_of_lists (hw : w.Denotes deps label owner) {n : Nat} {k : K}
    {v : Value} {t : Tree} {p : Prop}
    (lists : ∀ u, Lists deps label owner k u → w.Settled Value.links u →
      (w.cells.Unfolds n u t ↔ p))
    (hv : Stands deps label owner k v) (hs : w.Settled Value.links v) :
    w.cells.Unfolds n v t ↔ p := by
  cases hv with
  | link owned =>
      obtain ⟨u, hu, hsettled⟩ := hs.received
      rw [Cells.unfolds_forward_iff hu]
      exact lists u (hw.received hu owned) hsettled
  | node children => exact lists _ ⟨_, rfl, children⟩ hs

/-- A value that stands for a key unfolds to the reference tree of the key, at every depth, and
to nothing else. -/
theorem Denotes.unfolds_iff (hw : w.Denotes deps label owner)
    (atoms : ∀ k, (label k).isAtom = true) (n : Nat) {k : K} {v : Value}
    (hv : Stands deps label owner k v) (hs : w.Settled Value.links v) (t : Tree) :
    w.cells.Unfolds n v t ↔ t = reference deps label n k := by
  induction n generalizing k v t with
  | zero =>
      refine hw.unfolds_iff_of_lists ?_ hv hs
      rintro u ⟨vs, rfl, -⟩ -
      exact Cells.unfolds_zero_list_iff
  | succ n ih =>
      refine hw.unfolds_iff_of_lists ?_ hv hs
      rintro u ⟨vs, rfl, hvs⟩ hs
      have hitems (ts : List Tree) : List.Forall₂ (w.cells.Unfolds n) vs ts ↔
          ts = (deps k).map (reference deps label n) :=
        forall₂_unfolds_iff (fun hv hs => ih hv hs) hvs fun v hv =>
          hs.item (List.mem_cons_of_mem _ hv)
      rw [Cells.unfolds_succ_list_iff]
      constructor
      · rintro ⟨ts, rfl, hts⟩
        obtain ⟨t, ts', ht, hts', rfl⟩ := List.forall₂_cons_left_iff.1 hts
        rw [(Cells.unfolds_atom_iff (atoms k)).1 ht, (hitems ts').1 hts']
        rfl
      · rintro rfl
        exact ⟨_, rfl, .cons ((Cells.unfolds_atom_iff (atoms k)).2 rfl) ((hitems _).2 rfl)⟩

end World

end Standing

end DerivationCache
