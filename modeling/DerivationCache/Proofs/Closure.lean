import DerivationCache.Proofs.CommittedPass
import DerivationCache.Proofs.Outcome

/-!
# Closed graphs

A value may hold links to placeholder cells, and what a cell has received may hold further links.
`Cells.Occurs` are the cells that are met on the way. Inside a pass some of them are empty: a
stand-in is handed out before its cell has a value, and other values are built around it. This
module finds out which empty cells may occur where, and proves that none of them ever occurs in a
published value.

* In a value that is recorded in a context, or was given within it, the empty cells are ones that
  this very context awaits (`World.Within`).
* In a published value, and in whatever a request for a derived value returns, there are none
  (`World.Settled`).

The step that matters is the one that fills a cell. The value that goes in may link to other
empty cells, which from then on occur in every value that linked to the filled cell. But a cell
is awaited by one context only, so they are awaited by the context that the value was built in.
A context that can be committed awaits nothing, so what it publishes is settled, however many
passes of other contexts are still open around it.

## Main results

* `World.Shift.within`, `World.Shift.settled`: the two conditions outlive every step.
* `World.Closed.obeys`: a step that records only values built within the context keeps the world
  closed.
* `published_links_resolved`: in every state of a session whose builders build their values from
  what they were given, every cell that occurs in a published value has a value.
-/

namespace DerivationCache

variable {K N V σ B : Type}

/-! ### Cells that occur in a value -/

/-- The cells that a value links to, itself or through what cells have received. -/
inductive Cells.Occurs (cells : Cells V) (links : V → List CellId) (v : V) : CellId → Prop
  | link {h} (mem : h ∈ links v) : Occurs cells links v h
  | content {h h' u} (occurs : Occurs cells links v h) (filled : cells.get? h = some u)
      (mem : h' ∈ links u) : Occurs cells links v h'

namespace Cells

variable {cells cells' : Cells V} {links : V → List CellId} {u v : V} {h p : CellId}

/-- What occurs in a value depends on the contents of the cells alone. -/
theorem Occurs.congr (hget : ∀ h, cells'.get? h = cells.get? h) (ho : cells'.Occurs links v h) :
    cells.Occurs links v h := by
  induction ho with
  | link mem => exact .link mem
  | content _ filled mem ih => exact .content ih ((hget _).symm.trans filled) mem

/-- What occurs in a value built from others occurs in one of them. -/
theorem Occurs.of_links {S : V → Prop}
    (hlinks : ∀ l ∈ links v, ∃ u, S u ∧ cells.Occurs links u l) (ho : cells.Occurs links v h) :
    ∃ u, S u ∧ cells.Occurs links u h := by
  induction ho with
  | link mem => exact hlinks _ mem
  | content _ filled mem ih =>
      obtain ⟨u, hu, ho⟩ := ih
      exact ⟨u, hu, .content ho filled mem⟩

/-- A cell that occurs once an empty cell is filled occurred before, or occurs in the value that
the cell receives, which can be got at only if the cell itself occurred before. -/
theorem Occurs.of_fill (hnone : cells.get? p = none) (ho : (cells.fill p u).Occurs links v h) :
    cells.Occurs links v h ∨ (cells.Occurs links v p ∧ cells.Occurs links u h) := by
  induction ho with
  | link mem => exact Or.inl (.link mem)
  | @content h' h'' u' _ filled mem ih =>
      have hp : cells.Occurs links v p ∨ h' ≠ p := by
        by_cases hne : h' = p
        · subst hne
          exact Or.inl (ih.elim id fun hh => hh.1)
        · exact Or.inr hne
      rw [get?_fill] at filled
      split at filled
      · rename_i hh
        obtain ⟨rfl, -⟩ := hh
        rw [hnone, Option.getD_none] at filled
        obtain rfl := Option.some.inj filled
        exact Or.inr ⟨hp.elim id fun hne => absurd rfl hne, .link mem⟩
      · rcases ih with ho | ⟨hv, ho⟩
        · exact Or.inl (.content ho filled mem)
        · exact Or.inr ⟨hv, .content ho filled mem⟩

end Cells

namespace World

variable [DecidableEq K] (links : V → List CellId)

/-! ### Settled values and values of a pass -/

/-- Every cell that occurs in the value has a value. -/
def Settled (w : World K N V σ B) (v : V) : Prop :=
  ∀ h, w.cells.Occurs links v h → ∃ u, w.cells.get? h = some u

/-- Every empty cell that occurs in the value is awaited by the context. -/
def Within (w : World K N V σ B) (x : ContextId) (v : V) : Prop :=
  ∀ h, w.cells.Occurs links v h → w.cells.get? h = none → ∃ k, w.Awaits x k h

variable {links} {w w' : World K N V σ B} {x : ContextId} {v : V}

/-- A settled value belongs to every pass. -/
theorem Settled.within (hv : w.Settled links v) (x : ContextId) : w.Within links x v := by
  intro h ho hnone
  obtain ⟨u, hu⟩ := hv h ho
  simp [hnone] at hu

/-- A context without keys in flight awaits nothing. -/
theorem Within.settled (hv : w.Within links x v) (hready : w.Ready x) : w.Settled links v := by
  intro h ho
  cases hget : w.cells.get? h with
  | some u => exact ⟨u, rfl⟩
  | none =>
      obtain ⟨k, p, hp, -⟩ := hv h ho hget
      obtain ⟨u, hu⟩ := hready k _ hp
      simp at hu

omit [DecidableEq K] in
/-- A value without links is settled. -/
theorem Settled.of_links_eq_nil (hv : links v = []) : w.Settled links v := by
  have hnone (h : CellId) : ¬ w.cells.Occurs links v h := by
    intro ho
    induction ho with
    | link mem => simp [hv] at mem
    | content _ _ _ ih => exact ih
  exact fun h ho => absurd ho (hnone h)

/-- A stand-in that links to no cell but its own, which is awaited, belongs to the pass. -/
theorem Within.of_standIn {k : K} {p : Placeholder V} (hw : w.Awaiting)
    (hp : w.keyState x k = some (.placeholderIssued p))
    (hlinks : ∀ h ∈ links p.standIn, h = p.cell) : w.Within links x p.standIn := by
  have ha : w.Awaits x k p.cell := ⟨p, hp, rfl⟩
  have hown (h : CellId) (ho : w.cells.Occurs links p.standIn h) : h = p.cell := by
    induction ho with
    | link mem => exact hlinks _ mem
    | content _ filled _ ih =>
        subst ih
        rw [hw.empty ha] at filled
        simp at filled
  intro h ho _
  rw [hown h ho]
  exact ⟨k, ha⟩

/-! ### What a step does to them -/

namespace Shift

variable {e : Effect K V}

/-- A settled value stays settled. -/
theorem settled (h : w.Shift w' e) (hw : w.Awaiting) (hv : w.Settled links v) :
    w'.Settled links v := by
  intro cell ho
  rcases h.cells_source with hsame | ⟨x, k, u, p, -, hp, hfill⟩
  · obtain ⟨u, hu⟩ := hv cell (ho.congr hsame)
    exact ⟨u, h.cells_keep hu⟩
  · have hnone := hw.empty ⟨p, hp, rfl⟩
    rw [hfill] at ho
    rcases ho.of_fill hnone with ho | ⟨ho, -⟩
    · obtain ⟨u, hu⟩ := hv cell ho
      exact ⟨u, h.cells_keep hu⟩
    · obtain ⟨u, hu⟩ := hv p.cell ho
      simp [hnone] at hu

/-- An awaited cell is awaited as long as it is empty, unless its context is cleared. -/
theorem awaits_lasts (h : w.Shift w' e) (hw : w.Awaiting) (hclear : ∀ y, e ≠ .clear y) {k : K}
    {cell : CellId} (ha : w.Awaits x k cell) (hnone : w'.cells.get? cell = none) :
    w'.Awaits x k cell := by
  obtain ⟨p, hp, rfl⟩ := ha
  rcases h.issued_lasts hw hp with hsame | ⟨u, -, -, hu⟩ | he
  · exact ⟨p, hsame, rfl⟩
  · simp [hnone] at hu
  · exact absurd he (hclear x)

/-- A value that belongs to a pass goes on doing so, if the values that are recorded belong to
the pass that they are recorded in. -/
theorem within (h : w.Shift w' e) (hw : w.Awaiting) (hclear : ∀ y, e ≠ .clear y)
    (hrecord : ∀ y k u, e = .record y k u → w.Within links y u) (hv : w.Within links x v) :
    w'.Within links x v := by
  intro cell ho hnone
  have hempty : w.cells.get? cell = none := by
    cases hget : w.cells.get? cell with
    | none => rfl
    | some u => simp [h.cells_keep hget] at hnone
  have hlasts (ha : ∃ k, w.Awaits x k cell) : ∃ k, w'.Awaits x k cell := by
    obtain ⟨k, ha⟩ := ha
    exact ⟨k, h.awaits_lasts hw hclear ha hnone⟩
  rcases h.cells_source with hsame | ⟨y, k, u, p, he, hp, hfill⟩
  · exact hlasts (hv cell (ho.congr hsame) hempty)
  · have hpnone := hw.empty ⟨p, hp, rfl⟩
    rw [hfill] at ho
    rcases ho.of_fill hpnone with ho | ⟨hop, ho⟩
    · exact hlasts (hv cell ho hempty)
    · obtain ⟨l, ha⟩ := hv p.cell hop hpnone
      obtain ⟨rfl, -⟩ := hw.sole ha ⟨p, hp, rfl⟩
      exact hlasts (hrecord x k u he cell ho hempty)

end Shift

/-! ### Closed worlds -/

variable (links)

/-- No empty cell occurs in a published value, and those that occur in what a context knows are
awaited by it. -/
structure Closed (w : World K N V σ B) : Prop where
  awaiting : w.Awaiting
  published : ∀ {c k v}, w.stored c k = some v → w.Settled links v
  recorded : ∀ {x k v}, w.keyState x k = some (.resolved v) → w.Within links x v
  issued : ∀ {x k p}, w.keyState x k = some (.placeholderIssued p) → w.Within links x p.standIn

/-- The stand-ins that are issued link to no cell but their own. -/
def StandInsOwn (w : World K N V σ B) : Prop :=
  ∀ x k p, w.keyState x k = some (.placeholderIssued p) → ∀ h ∈ links p.standIn, h = p.cell

end World

/-- What is recorded belongs to the pass it is recorded in, what is inserted has no links, and
nothing is cleared. -/
def Demand.Honest [DecidableEq K] (links : V → List CellId) (w : World K N V σ B) :
    Demand K V → Prop
  | .record x _ v _ => w.Within links x v
  | .insert _ _ v => links v = []
  | .clear _ => False
  | _ => True

namespace World

variable [DecidableEq K] {links : V → List CellId} {w w' : World K N V σ B} {d : Demand K V}

/-- There are no values in an empty world. -/
theorem Closed.empty_world (client : σ) : ({ client } : World K N V σ B).Closed links where
  awaiting := Awaiting.empty_world client
  published h := by simp [World.stored, cache?] at h
  recorded h := by simp [keyState, context?] at h
  issued h := by simp [keyState, context?] at h

/-- What is given within a pass belongs to it. -/
theorem Gives.within (hw : w.Closed links) {x : ContextId} {k : K} {u : V}
    (h : w.Gives x k u) : w.Within links x u := by
  cases h with
  | published c u parent stored => exact (hw.published stored).within x
  | recorded u state => exact hw.recorded state
  | standIn p state => exact hw.issued state

/-- The effect of an honest demand clears nothing, and records what belongs to the pass. -/
theorem Obeys.honest_shift (h : w.Obeys w' d) (hd : d.Honest links w) :
    ∃ e, w.Shift w' e ∧ (∀ y, e ≠ .clear y) ∧
      ∀ y k u, e = .record y k u → w.Within links y u := by
  obtain ⟨e, hshift, hpermits, -⟩ := h.shift
  refine ⟨e, hshift, ?_, ?_⟩
  · rintro y rfl
    obtain rfl : d = .clear y := hpermits
    exact hd
  · rintro y k u rfl
    obtain ⟨o, rfl, -⟩ := hpermits
    exact hd

/-- A settled value stays settled. -/
theorem Obeys.settled (h : w.Obeys w' d) (hw : w.Awaiting) {v : V} (hv : w.Settled links v) :
    w'.Settled links v := by
  obtain ⟨e, hshift, -⟩ := h.shift
  exact hshift.settled hw hv

/-- A value goes on belonging to its pass, as long as the demands are honest. -/
theorem Obeys.within (h : w.Obeys w' d) (hw : w.Awaiting) (hd : d.Honest links w)
    {x : ContextId} {v : V} (hv : w.Within links x v) : w'.Within links x v := by
  obtain ⟨e, hshift, hclear, hrecord⟩ := h.honest_shift hd
  exact hshift.within hw hclear hrecord hv

/-- An honest demand keeps the world closed. -/
theorem Closed.obeys (hw : w.Closed links) (h : w.Obeys w' d) (hd : d.Honest links w)
    (hown : w'.StandInsOwn links) : w'.Closed links := by
  obtain ⟨e, hshift, hclear, hrecord⟩ := h.honest_shift hd
  have hawaiting := hshift.awaiting hw.awaiting
  refine ⟨hawaiting, fun {c k v} hv => ?_, fun {x k v} hv => ?_, fun {x k p} hp => ?_⟩
  · rcases h.source c k v hv with hv | ⟨rfl, -⟩ | ⟨x, -, -, hready, hv⟩
    · exact h.settled hw.awaiting (hw.published hv)
    · exact Settled.of_links_eq_nil hd
    · exact h.settled hw.awaiting ((hw.recorded hv).settled hready)
  · rcases hshift.recorded_source hv with hv | he
    · exact h.within hw.awaiting hd (hw.recorded hv)
    · exact h.within hw.awaiting hd (hrecord x k v he)
  · exact Within.of_standIn hawaiting hp (hown x k p hp)

end World

/-! ### Closed machines -/

namespace Machine

variable [DecidableEq K]

variable (links : V → List CellId) in
/-- The world is closed, what a pass is answered with has something behind it, and values on
their way are settled. -/
structure Closed (m : Machine K N V σ B) : Prop where
  world : m.world.Closed links
  backed : ∀ {x k u asker}, m.focus = .reply x k (.ok (some u)) asker → m.world.Gives x k u
  carried : ∀ {c k v}, m.Carries c k v → m.world.Settled links v

/-- A value is given to a routine now, by a request within the pass of the context, by a look at
what the context has recorded or at what a cache has published, or by the end of a request for a
derived value. -/
def Offers (m : Machine K N V σ B) (x : ContextId) (v : V) : Prop :=
  match m.focus with
  | .reply y _ answer _ => y = x ∧ answer = .ok (some v)
  | .run (.perform (.recorded y k) _) => y = x ∧ m.world.keyState y k = some (.resolved v)
  | .run (.perform (.published c k) _) => m.world.stored c k = some v
  | .deliver _ _ outcome _ => outcome = .returned (.ok v)
  | .wake _ _ _ outcomes _ => .returned (.ok v) ∈ outcomes
  | _ => False

variable {links : V → List CellId} {m m' : Machine K N V σ B}

/-- A routine that starts in a closed world has been given nothing yet. -/
theorem Closed.start {w : World K N V σ B} (hw : w.Closed links) (routine : Body K N V σ B) :
    (start w routine).Closed links where
  world := hw
  backed hfocus := by simp [Machine.start] at hfocus
  carried hv := by
    rcases hv with hv | ⟨frame, hframe, -⟩
    · exact absurd hv id
    · simp [Machine.start] at hframe

/-- What a routine is given belongs to the pass it is given in. -/
theorem Closed.offers (hm : m.Closed links) {x : ContextId} {v : V} (h : m.Offers x v) :
    m.world.Within links x v := by
  rw [Offers] at h
  split at h
  · rename_i y k answer asker hfocus
    obtain ⟨rfl, rfl⟩ := h
    exact (hm.backed hfocus).within hm.world
  · obtain ⟨rfl, hv⟩ := h
    exact hm.world.recorded hv
  · exact (hm.world.published h).within x
  · rename_i c k outcome receiver hfocus
    have hv : m.Carries c k v := Or.inl (by rw [hfocus]; exact ⟨rfl, rfl, Or.inl h⟩)
    exact (hm.carried hv).within x
  · rename_i c k waiting outcomes next hfocus
    have hv : m.Carries c k v := Or.inl (by rw [hfocus]; exact ⟨rfl, rfl, h⟩)
    exact (hm.carried hv).within x
  · exact absurd h id

variable [DecidableEq N] [BEq V] [ToString K] {body : B → ContextId → K → Body K N V σ B}

/-- An honest step keeps the machine closed. -/
theorem Closed.step (hm : m.Closed links) (h : Transition body m m')
    (hd : m.demand.Honest links m.world) (hown : m'.world.StandInsOwn links) :
    m'.Closed links where
  world := hm.world.obeys h.obeys hd hown
  backed hfocus := h.reply hfocus
  carried {c k v} hv := by
    have hsettled {v : V} (hv : m.world.Settled links v) : m'.world.Settled links v :=
      h.obeys.settled hm.world.awaiting hv
    rcases h.carries hv with hv | hv | ⟨x, l, p, receiver, w, hfocus, -, -, hcommit, -⟩
    · exact hsettled (hm.carried hv)
    · exact (hm.world.obeys h.obeys hd hown).published hv
    · obtain ⟨-, -, -, -, hready⟩ := World.commit_ok hcommit
      exact hsettled (((hm.backed hfocus).within hm.world).settled hready)

/-- Whether the machine makes an honest step or the next line is started, it stays closed, and
values go on belonging to their pass. -/
theorem Closed.follows (hm : m.Closed links) (h : Follows body m m')
    (hd : m.demand.Honest links m.world) (hown : m'.world.StandInsOwn links) :
    m'.Closed links ∧
      ∀ x u, m.world.Within links x u → m'.world.Within links x u := by
  cases h with
  | step made =>
      have hstep := Transition.of_step made
      exact ⟨hm.step hstep hd hown, fun x u => hstep.obeys.within hm.world.awaiting hd⟩
  | line ended client routine =>
      have hobeys := (World.Idles.setClient m.world client).obeys .nothing
      exact ⟨.start (hm.world.obeys hobeys trivial hown) routine,
        fun x u => hobeys.within hm.world.awaiting trivial⟩

end Machine

/-! ### Sessions -/

section Sessions

variable [DecidableEq K] [DecidableEq N] [BEq V] [ToString K]
variable {body : B → ContextId → K → Body K N V σ B}

/-- Values are built from what was given. A value that is recorded in a context links only to
cells that occur in values given before, within the same context or by a request for a derived
value. What is inserted directly has no links, no context is cleared, and stand-ins link to no
cell but their own. -/
structure BuiltFromAnswers (links : V → List CellId)
    (e : Execution Machine.Starts (Machine.Follows body)) : Prop where
  recorded : ∀ i < e.length, ∀ x k v o, (e.state i).demand = .record x k v o → ∀ h ∈ links v,
    ∃ u, (∃ j ≤ i, (e.state j).Offers x u) ∧ (e.state i).world.cells.Occurs links u h
  inserted : ∀ i < e.length, ∀ c k v, (e.state i).demand = .insert c k v → links v = []
  uncleared : ∀ i < e.length, ∀ x, (e.state i).demand ≠ .clear x
  standIns : ∀ i ≤ e.length, (e.state i).world.StandInsOwn links

variable {links : V → List CellId} {e : Execution Machine.Starts (Machine.Follows body)}

/-- What a session records is honest, as long as all that was given so far belongs to the pass it
was given in. -/
theorem BuiltFromAnswers.honest (h : BuiltFromAnswers links e) {i : Nat} (hi : i < e.length)
    (hgiven : ∀ j ≤ i, ∀ x u, (e.state j).Offers x u → (e.state i).world.Within links x u) :
    (e.state i).demand.Honest links (e.state i).world := by
  cases hd : (e.state i).demand with
  | nothing => exact trivial
  | request x k => exact trivial
  | commit x => exact trivial
  | clear x => exact absurd hd (h.uncleared i hi x)
  | insert c k v => exact h.inserted i hi c k v hd
  | record x k v o =>
      intro cell ho hnone
      obtain ⟨u, ⟨j, hj, hu⟩, ho⟩ := ho.of_links (h.recorded i hi x k v o hd)
      exact hgiven j hj x u hu cell ho hnone

/-- In every state the machine is closed, and what was given so far still belongs to the pass it
was given in. -/
theorem BuiltFromAnswers.closed (h : BuiltFromAnswers links e) {i : Nat} (hi : i ≤ e.length) :
    (e.state i).Closed links ∧
      ∀ j ≤ i, ∀ x u, (e.state j).Offers x u → (e.state i).world.Within links x u := by
  induction i with
  | zero =>
      obtain ⟨client, routine, hstart⟩ := e.starts
      have hm : (e.state 0).Closed links := by
        rw [hstart]
        exact .start (World.Closed.empty_world client) routine
      refine ⟨hm, fun j hj x u hu => ?_⟩
      obtain rfl := Nat.le_zero.1 hj
      exact hm.offers hu
  | succ i ih =>
      obtain ⟨hm, hgiven⟩ := ih (Nat.le_of_succ_le hi)
      have hd := h.honest hi hgiven
      have hown := h.standIns (i + 1) hi
      obtain ⟨hnext, hlast⟩ := hm.follows (e.goes i hi) hd hown
      refine ⟨hnext, fun j hj x u hu => ?_⟩
      rcases Nat.lt_or_ge i j with hij | hji
      · obtain rfl : j = i + 1 := Nat.le_antisymm hj hij
        exact hnext.offers hu
      · exact hlast x u (hgiven j hji x u hu)

/-- No half-built graph is ever exposed: in every state of a session whose values are built from
what was given, each cell that occurs in a published value can be read. -/
theorem published_links_resolved (h : BuiltFromAnswers links e) {i : Nat} (hi : i ≤ e.length)
    {c : CacheId} {k : K} {v : V} (hv : (e.state i).world.stored c k = some v) {cell : CellId}
    (ho : (e.state i).world.cells.Occurs links v cell) :
    ∃ u, (e.state i).world.cells.read cell = .ok u := by
  obtain ⟨u, hu⟩ := (h.closed hi).1.world.published hv cell ho
  exact ⟨u, by rw [Cells.read, hu]⟩

end Sessions

/-! ### The session of a key that needs itself -/

namespace SelfRequest

/-- The cells that a value links to. -/
def Value.links : Value → List CellId
  | .link cell => [cell]
  | .number _ => []
  | .boxed inner => inner.links

/-- The key that needs itself is requested. -/
def session : Execution Machine.Starts (Machine.Follows body) :=
  main.runExecution 10 ⟨(), _, rfl⟩ (fun _ _ h => .step h) main_runs

/-- All that is demanded is that the key is requested, that the boxed link is recorded, and that
the pass is committed. -/
theorem session_demand : ∀ i < 10, (session.state i).demand = .nothing ∨
    (session.state i).demand = .request ⟨0⟩ 7 ∨ (session.state i).demand = .commit ⟨0⟩ ∨
    (i = 7 ∧ (session.state i).demand = .record ⟨0⟩ 7 (.boxed (.link ⟨0⟩)) true) := by
  decide +kernel

/-- Stand-ins are links to their own cells. -/
theorem session_entries : ∀ i ≤ 10, ∀ context ∈ (session.state i).world.contexts.toList,
    ∀ entry ∈ context.entries.toList, (match entry.2 with
      | .placeholderIssued p => decide (p.standIn = .link p.cell)
      | _ => true) = true := by
  decide +kernel

/-- The builder of the key is honest: it boxes the link that it was given, and returns the box. -/
theorem session_builtFromAnswers : BuiltFromAnswers Value.links session where
  recorded i hi x k v o hd h hh := by
    rcases session_demand i hi with hn | hn | hn | ⟨rfl, hn⟩
    · simp [hn] at hd
    · simp [hn] at hd
    · simp [hn] at hd
    · rw [hn] at hd
      obtain ⟨rfl, rfl, rfl, rfl⟩ := Demand.record.inj hd
      exact ⟨.link ⟨0⟩, ⟨6, by decide, rfl, rfl⟩, .link hh⟩
  inserted i hi c k v hd := by
    rcases session_demand i hi with hn | hn | hn | ⟨-, hn⟩ <;> simp [hn] at hd
  uncleared i hi x hd := by
    rcases session_demand i hi with hn | hn | hn | ⟨-, hn⟩ <;> simp [hn] at hd
  standIns i hi x k p hp h hh := by
    obtain ⟨context, hx, he⟩ := Option.bind_eq_some_iff.1 hp
    have hmem : context ∈ (session.state i).world.contexts.toList :=
      Array.mem_toList_iff.2 (Array.mem_of_getElem? hx)
    have hentry := session_entries i hi context hmem (k, .placeholderIssued p)
      ((context.entries.mem_toList k _).2 he)
    rw [of_decide_eq_true hentry] at hh
    exact List.mem_singleton.1 hh

/-- The key that needs itself is published with a link into its own graph, which can be read. -/
theorem session_links_resolved :
    (session.state 10).world.stored ⟨0⟩ 7 = some (.boxed (.link ⟨0⟩)) ∧
      ∃ u, (session.state 10).world.cells.read ⟨0⟩ = .ok u := by
  have hstored : (session.state 10).world.stored ⟨0⟩ 7 = some (.boxed (.link ⟨0⟩)) := rfl
  exact ⟨hstored, published_links_resolved session_builtFromAnswers (by decide) hstored
    (.link (List.mem_singleton.2 rfl))⟩

end SelfRequest

end DerivationCache
