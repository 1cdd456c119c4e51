import EscapeFlow.Proofs.Covering
import EscapeFlow.Proofs.Placing
import Mathlib.Logic.Relation

/-!
# What building does to a graph

Building changes a graph in five ways only: a value flows, a captured variable flows into its
closure, a temporary, an allocation or a variable gets a location, or a mark is set.  `Change`
lists them, each with what is known when it happens, and `Changes` is any number of them one
after the other.  Nothing gets lost on the way, and graphs stay well-formed:

    Changes s lits b b' → b.WellFormed → b.Grows b'                             (Changes.grows)
    Changes s lits b b' → b.WellFormed → b'.WellFormed                     (Changes.wellFormed)

`lits` are allocations that only closure literals make.  No hole leads to their locations, so
nothing but captures flows into them.
-/

namespace EscapeFlow

open BatchGraph

/-! ## Well-formed graphs -/

/-- Edges start at locations that are no sinks and take an address at most; a location does not
flow into itself but by its address; an address into the heap or a global is no edge; what
escapes has all attributes; and the tables say which location is the storage of what. -/
structure BatchGraph.WellFormed (b : BatchGraph) : Prop where
  sinks : ∀ l, l < 3 → (b.graph.loc l).owner = (Graph.sinks.loc l).owner
  source : ∀ d s w, HasEdge b.graph d s w → 3 ≤ s ∧ s < b.graph.size
  weight : ∀ d s w, HasEdge b.graph d s w → -1 ≤ w
  selfless : ∀ l w, HasEdge b.graph l l w → w < 0
  address : ∀ d s, d = heapId ∨ (b.graph.loc d).isGlobal = true → ¬ HasEdge b.graph d s (-1)
  escapes : ∀ l, l = heapId ∨ (b.graph.loc l).isGlobal = true → (b.graph.loc l).escapes = true
  full : ∀ l, (b.graph.loc l).escapes = true → Attrs.all ≤ (b.graph.loc l).attrs
  var_iff : ∀ v l, b.varLoc? v = some l ↔ (b.graph.loc l).owner = .site (.var v)
  site_iff : ∀ i l, b.siteLoc? i = some l ↔ (b.graph.loc l).owner = .site (.alloc i)

/-- A location of the graph that is no sink. -/
def BatchGraph.Holds (b : BatchGraph) (l : LocId) : Prop := 3 ≤ l ∧ l < b.graph.size

/-- To begin with there are no edges, no globals and no owners. -/
theorem Graph.sinks_loc (l : LocId) :
    (Graph.sinks.loc l).edges = [] ∧ (Graph.sinks.loc l).isGlobal = false ∧
      (Graph.sinks.loc l).owner.site? = none ∧
      ((Graph.sinks.loc l).escapes = true → Attrs.all ≤ (Graph.sinks.loc l).attrs) := by
  rcases Nat.lt_or_ge l 3 with hl | hl
  · have hsinks : ∀ x < 3, (Graph.sinks.loc x).edges = [] ∧
        (Graph.sinks.loc x).isGlobal = false ∧ (Graph.sinks.loc x).owner.site? = none ∧
        ((Graph.sinks.loc x).escapes = true → (Graph.sinks.loc x).attrs = .all) := by decide
    obtain ⟨he, hg, ho, ha⟩ := hsinks l hl
    exact ⟨he, hg, ho, fun h => ha h ▸ Attrs.le_refl _⟩
  · rw [Graph.sinks.loc_of_le l hl]
    exact ⟨rfl, rfl, rfl, nofun⟩

theorem Graph.lt_size_of_site {g : Graph} {l : LocId} {x : Site}
    (h : (g.loc l).owner = .site x) : l < g.size := by
  by_contra hl
  have hloc := g.loc_of_le l (Nat.le_of_not_lt hl)
  rw [hloc] at h
  cases h

namespace BatchGraph.WellFormed

variable {b : BatchGraph} (h : b.WellFormed)

include h

theorem three_le : 3 ≤ b.graph.size := by
  by_contra hlt
  have howner := h.sinks 2 (by decide)
  rw [b.graph.loc_of_le 2 (Nat.le_of_lt_succ (Nat.lt_of_not_le hlt))] at howner
  exact absurd howner (by decide)

/-- Sinks are the storage of nothing. -/
theorem holds_of_site {l : LocId} {x : Site} (hl : (b.graph.loc l).owner = .site x) :
    b.Holds l := by
  refine ⟨?_, Graph.lt_size_of_site hl⟩
  by_contra h3
  have hlt : l < 3 := Nat.lt_of_not_le h3
  have hsink := (Graph.sinks_loc l).2.2.1
  rw [← h.sinks l hlt, hl] at hsink
  cases hsink

theorem holds_of_var {v : VarId} {l : LocId} (hv : b.varLoc? v = some l) : b.Holds l :=
  h.holds_of_site ((h.var_iff v l).1 hv)

theorem holds_of_alloc {i : SiteId} {l : LocId} (hi : b.siteLoc? i = some l) : b.Holds l :=
  h.holds_of_site ((h.site_iff i l).1 hi)

/-- No two variables have one location. -/
theorem var_inj {v w : VarId} {l : LocId} (hv : b.varLoc? v = some l)
    (hw : b.varLoc? w = some l) : v = w := by
  have hvw := ((h.var_iff v l).1 hv).symm.trans ((h.var_iff w l).1 hw)
  cases hvw
  rfl

/-- No two allocations have one location. -/
theorem site_inj {i j : SiteId} {l : LocId} (hi : b.siteLoc? i = some l)
    (hj : b.siteLoc? j = some l) : i = j := by
  have hij := ((h.site_iff i l).1 hi).symm.trans ((h.site_iff j l).1 hj)
  cases hij
  rfl

end BatchGraph.WellFormed

/-! ## Changes -/

/-- The variable is assigned to as a whole, or its address is taken. -/
def Scene.changes (s : Scene) (v : VarId) : Bool :=
  s.reassigned.contains v || s.addrTaken.contains v

/-- The hole takes an address at most, and leads to a location of the graph, but not to that of
an allocation in `lits`, or nowhere. -/
structure Hole.Open (lits : SiteId → Prop) (b : BatchGraph) (k : Hole) : Prop where
  derefs : -1 ≤ k.derefs
  lt : ∀ l, k.dst = some l → l < b.graph.size
  apart : ∀ l, k.dst = some l → ∀ i, (b.graph.loc l).owner = .site (.alloc i) → ¬ lits i

/-- A new location of variable `v`: that of a global, or of a variable that is declared. -/
structure Location.IsNew (p : Program) (v : VarId) (x : Location) : Prop where
  owner : x.owner = .site (.var v)
  edges : x.edges = []
  kind : x.isGlobal = false ∧ x.attrs = .ofAttr .persists ∨
    x.attrs = .all ∧ ∃ decl, p.var? v = some decl ∧ decl.isGlobal = true

/-- The ways in which building changes a graph. -/
inductive Change (s : Scene) (lits : SiteId → Prop) (b : BatchGraph) : BatchGraph → Prop
  | flow {k : Hole} {src : LocId} (hole : k.Open lits b) (source : b.Holds src) :
    Change s lits b (b.flow s.notes k src)
  | capture {k : Hole} {src : LocId} {v : VarId} (captured : b.varLoc? v = some src)
    (derefs : k.derefs = if s.changes v then -1 else 0) :
    Change s lits b (b.flow s.notes k src)
  | temp (pl : Place) (persists : Bool) : Change s lits b (b.pushTemp pl persists)
  | site (pl : Place) {i : SiteId} (new : b.siteLoc? i = none) : Change s lits b (b.pushSite pl i)
  | var {v : VarId} {x : Location} (new : b.varLoc? v = none) (isNew : x.IsNew s.program v) :
    Change s lits b (b.pushVar v x)
  | mark (l : LocId) {f : Location → Location} (role : ∀ x, (f x).role = x.role)
    (edges : ∀ x, (f x).edges = x.edges) (attrs : ∀ x, (f x).attrs = x.attrs) :
    Change s lits b (b.update l f)

/-- Any number of changes. -/
abbrev Changes (s : Scene) (lits : SiteId → Prop) : BatchGraph → BatchGraph → Prop :=
  Relation.ReflTransGen (Change s lits)

/-! ## Nothing gets lost -/

/-- All that is in `b` is in `b'`. -/
structure BatchGraph.Grows (b b' : BatchGraph) : Prop where
  size : b.graph.size ≤ b'.graph.size
  vars : ∀ v l, b.varLoc? v = some l → b'.varLoc? v = some l
  sites : ∀ i l, b.siteLoc? i = some l → b'.siteLoc? i = some l
  role : ∀ l, l < b.graph.size → (b'.graph.loc l).role = (b.graph.loc l).role
  edge : ∀ d s w, HasEdge b.graph d s w → HasEdge b'.graph d s w
  escapes : ∀ l, (b.graph.loc l).escapes = true → (b'.graph.loc l).escapes = true

namespace BatchGraph.Grows

variable {b b' b'' : BatchGraph}

theorem refl (b : BatchGraph) : b.Grows b :=
  ⟨Nat.le_refl _, fun _ _ => id, fun _ _ => id, fun _ _ => rfl, fun _ _ _ => id, fun _ => id⟩

theorem trans (h : b.Grows b') (h' : b'.Grows b'') : b.Grows b'' where
  size := Nat.le_trans h.size h'.size
  vars v l hv := h'.vars v l (h.vars v l hv)
  sites i l hi := h'.sites i l (h.sites i l hi)
  role l hl := (h'.role l (Nat.lt_of_lt_of_le hl h.size)).trans (h.role l hl)
  edge d s w he := h'.edge d s w (h.edge d s w he)
  escapes l hl := h'.escapes l (h.escapes l hl)

theorem holds (h : b.Grows b') {l : LocId} (hl : b.Holds l) : b'.Holds l :=
  ⟨hl.1, Nat.lt_of_lt_of_le hl.2 h.size⟩

theorem owner (h : b.Grows b') {l : LocId} (hl : l < b.graph.size) :
    (b'.graph.loc l).owner = (b.graph.loc l).owner :=
  congrArg Role.owner (h.role l hl)

theorem fed (h : b.Grows b') {d s : LocId} {w : Int} (hf : Fed b.graph d s w) :
    Fed b'.graph d s w := by
  rcases hf with ⟨hw, he⟩ | hself | hedge
  · exact .inl ⟨hw, h.escapes s he⟩
  · exact .inr (.inl hself)
  · exact .inr (.inr (h.edge d s w hedge))

theorem openHole (h : b.Grows b') {lits : SiteId → Prop} {k : Hole} (hk : k.Open lits b) :
    k.Open lits b' where
  derefs := hk.derefs
  lt l hl := Nat.lt_of_lt_of_le (hk.lt l hl) h.size
  apart l hl i hi := by
    rw [h.owner (hk.lt l hl)] at hi
    exact hk.apart l hl i hi

/-- A flow keeps everything. -/
theorem flow (b : BatchGraph) (notes : Bool) (k : Hole) (src : LocId) :
    b.Grows (b.flow notes k src) where
  size := by rw [flow_size]
  vars v l hv := by rwa [varLoc?, flow_vars]
  sites i l hi := by rwa [siteLoc?, flow_sites]
  role l _ := Covers.flow_role l
  edge _ _ _ := hasEdge_flow
  escapes _ := escapes_flow

/-- So does a change of a location that keeps its role, edges and attributes. -/
theorem update (b : BatchGraph) (l : LocId) {f : Location → Location}
    (hrole : ∀ x, (f x).role = x.role) (hedges : ∀ x, (f x).edges = x.edges)
    (hattrs : ∀ x, (f x).attrs = x.attrs) : b.Grows (b.update l f) where
  size := Nat.le_of_eq (b.graph.update_size l f).symm
  vars _ _ := id
  sites _ _ := id
  role x _ := b.graph.update_view Location.role l x hrole
  edge d s w he := by
    obtain ⟨e, he, hs⟩ := he
    refine ⟨e, ?_, hs⟩
    show e ∈ ((b.graph.update l f).loc d).edges
    rwa [b.graph.update_view Location.edges l d hedges]
  escapes x hx := by
    show ((b.graph.update l f).loc x).attrs.escapes = true
    rwa [b.graph.update_view Location.attrs l x hattrs]

/-- So does a new location, and what is looked up before is found after. -/
theorem push {c : BatchGraph} {x : Location} (hc : c.graph = b.graph.push x)
    (hvars : ∀ v l, b.varLoc? v = some l → c.varLoc? v = some l)
    (hsites : ∀ i l, b.siteLoc? i = some l → c.siteLoc? i = some l) : b.Grows c where
  size := by
    rw [hc, b.graph.push_size]
    omega
  vars := hvars
  sites := hsites
  role l hl := by rw [hc, b.graph.push_loc_of_lt x hl]
  edge d s w he := by
    obtain ⟨e, he, hs⟩ := he
    have hd := Graph.lt_size_of_mem_edges he
    refine ⟨e, ?_, hs⟩
    rwa [hc, b.graph.push_loc_of_lt x hd]
  escapes l hl := by
    have hlt := Graph.lt_size_of_escapes hl
    rwa [hc, b.graph.push_loc_of_lt x hlt]

end BatchGraph.Grows

/-- A table with an entry for what had none. -/
theorem lookup_cons_of_none {α : Type} [BEq α] [LawfulBEq α] {xs : List (α × LocId)} {a : α}
    (h : xs.lookup a = none) (n : LocId) (c : α) (l : LocId) :
    ((a, n) :: xs).lookup c = some l ↔ xs.lookup c = some l ∨ c = a ∧ l = n := by
  rw [List.lookup_cons]
  split
  · next heq =>
    obtain rfl := eq_of_beq heq
    rw [h]
    constructor
    · intro hl
      exact .inr ⟨rfl, (Option.some.inj hl).symm⟩
    · rintro (hl | ⟨-, rfl⟩)
      · cases hl
      · rfl
  · next hne =>
    constructor
    · exact .inl
    · rintro (hl | ⟨rfl, -⟩)
      · exact hl
      · simp at hne

theorem varLoc?_pushVar {b : BatchGraph} {v : VarId} (hv : b.varLoc? v = none) (x : Location)
    (w : VarId) (l : LocId) : (b.pushVar v x).varLoc? w = some l ↔
      b.varLoc? w = some l ∨ w = v ∧ l = b.graph.size :=
  lookup_cons_of_none hv _ w l

theorem siteLoc?_pushSite {b : BatchGraph} {i : SiteId} (hi : b.siteLoc? i = none) (pl : Place)
    (j : SiteId) (l : LocId) : (b.pushSite pl i).siteLoc? j = some l ↔
      b.siteLoc? j = some l ∨ j = i ∧ l = b.graph.size :=
  lookup_cons_of_none hi _ j l

variable {s : Scene} {lits : SiteId → Prop} {b b' : BatchGraph}

theorem Change.grows (h : Change s lits b b') : b.Grows b' := by
  cases h with
  | flow => exact .flow b _ _ _
  | capture => exact .flow b _ _ _
  | temp => exact .push rfl (fun _ _ => id) fun _ _ => id
  | site pl new =>
    exact .push rfl (fun _ _ => id) fun j l hj => (siteLoc?_pushSite new pl j l).2 (.inl hj)
  | var new =>
    exact .push rfl (fun w l hw => (varLoc?_pushVar new _ w l).2 (.inl hw)) fun _ _ => id
  | mark l role edges attrs => exact .update b l role edges attrs

theorem Changes.grows (h : Changes s lits b b') : b.Grows b' := by
  induction h with
  | refl => exact .refl b
  | tail _ hstep ih => exact ih.trans hstep.grows

/-! ## Graphs stay well-formed -/

/-- An address that flows into what escapes is no new edge. -/
theorem BatchGraph.hasEdge_of_flow_escapes {notes : Bool} {k : Hole} {src d t : LocId} {w : Int}
    (hd : (b.graph.loc d).escapes = true) (hw : w < 0)
    (h : HasEdge (b.flow notes k src).graph d t w) : HasEdge b.graph d t w := by
  obtain ⟨e, he, rfl, rfl⟩ := h
  rcases b.flow_cases notes k src with ⟨-, hf⟩ | ⟨_, -, -, -, hf⟩ | ⟨dst, -, -, hesc, why, hf⟩
  · exact ⟨e, by rwa [(hf d).1] at he, rfl, rfl⟩
  · exact ⟨e, by rwa [(hf d).1] at he, rfl, rfl⟩
  · rw [(hf d).1] at he
    split at he
    · next hdst =>
      rcases List.mem_append.1 he with he | he
      · exact ⟨e, he, rfl, rfl⟩
      · obtain rfl := List.mem_singleton.1 he
        rw [hdst.1] at hd
        exact absurd ⟨hd, hw⟩ hesc
    · exact ⟨e, he, rfl, rfl⟩

/-- In a flow the attributes of its source alone can change, and then to all there are. -/
theorem BatchGraph.attrs_flow (notes : Bool) (k : Hole) (src l : LocId) :
    ((b.flow notes k src).graph.loc l).attrs = (b.graph.loc l).attrs ∨
      l = src ∧ ((b.flow notes k src).graph.loc l).attrs = (b.graph.loc l).attrs.union .all := by
  rcases b.flow_cases notes k src with ⟨-, hf⟩ | ⟨_, -, -, -, hf⟩ | ⟨_, -, -, -, _, hf⟩
  · exact .inl (hf l).2
  · rw [(hf l).2]
    split
    · next hl => exact .inr ⟨hl.1, rfl⟩
    · exact .inl rfl
  · exact .inl (hf l).2

namespace BatchGraph.WellFormed

/-- A flow from a location that is no sink. -/
theorem flow (h : b.WellFormed) (notes : Bool) {k : Hole} {src : LocId} (hk : -1 ≤ k.derefs)
    (hsrc : b.Holds src) : (b.flow notes k src).WellFormed := by
  have howner : ∀ l, ((b.flow notes k src).graph.loc l).owner = (b.graph.loc l).owner := fun l =>
    congrArg Role.owner (Covers.flow_role l)
  have hglobal : ∀ l, ((b.flow notes k src).graph.loc l).isGlobal = (b.graph.loc l).isGlobal :=
    fun l => congrArg Role.isGlobal (Covers.flow_role l)
  constructor
  case sinks =>
    intro l hl
    rw [howner]
    exact h.sinks l hl
  case source =>
    intro d t w he
    rw [flow_size]
    rcases of_hasEdge_flow he with hold | ⟨-, -, rfl, -⟩
    · exact h.source d t w hold
    · exact hsrc
  case weight =>
    intro d t w he
    rcases of_hasEdge_flow he with hold | ⟨-, -, -, rfl, -⟩
    · exact h.weight d t w hold
    · exact hk
  case selfless =>
    intro l w he
    rcases of_hasEdge_flow he with hold | ⟨-, -, hl, rfl, hself⟩
    · exact h.selfless l w hold
    · by_contra hw
      exact hself ⟨hl, by omega⟩
  case address =>
    intro d t hd he
    rw [hglobal] at hd
    exact h.address d t hd (hasEdge_of_flow_escapes (h.escapes d hd) (by omega) he)
  case escapes =>
    intro l hl
    rw [hglobal] at hl
    exact escapes_flow (h.escapes l hl)
  case full =>
    intro l hl
    rcases attrs_flow (b := b) notes k src l with hsame | ⟨-, hall⟩
    · rw [hsame]
      refine h.full l ?_
      show (b.graph.loc l).attrs.escapes = true
      rwa [← hsame]
    · rw [hall]
      exact Attrs.le_union_right _ _
  case var_iff =>
    intro v l
    rw [varLoc?, flow_vars, howner]
    exact h.var_iff v l
  case site_iff =>
    intro i l
    rw [siteLoc?, flow_sites, howner]
    exact h.site_iff i l

/-- A location without edges, entered into the table that its owner says. -/
theorem push (h : b.WellFormed) {c : BatchGraph} {x : Location} (hc : c.graph = b.graph.push x)
    (hedges : x.edges = []) (hglobal : x.isGlobal = true → x.escapes = true)
    (hfull : x.escapes = true → Attrs.all ≤ x.attrs)
    (hvars : ∀ v l, c.varLoc? v = some l ↔
      b.varLoc? v = some l ∨ x.owner = .site (.var v) ∧ l = b.graph.size)
    (hsites : ∀ i l, c.siteLoc? i = some l ↔
      b.siteLoc? i = some l ∨ x.owner = .site (.alloc i) ∧ l = b.graph.size) :
    c.WellFormed := by
  have hlt : ∀ {l : LocId}, l < 3 → l < b.graph.size := fun hl => Nat.lt_of_lt_of_le hl h.three_le
  have hedge : ∀ d t w, HasEdge c.graph d t w ↔ HasEdge b.graph d t w := fun d t w => by
    rw [hc]
    exact b.graph.hasEdge_push hedges d t w
  -- what owns a location after the push: as before, or it is the new one
  have howner : ∀ l y, (c.graph.loc l).owner = .site y ↔
      (b.graph.loc l).owner = .site y ∨ x.owner = .site y ∧ l = b.graph.size := by
    intro l y
    rw [hc, b.graph.push_loc]
    split
    · next hl =>
      rw [hl, b.graph.loc_of_le _ (Nat.le_refl _)]
      exact ⟨fun hx => .inr ⟨hx, rfl⟩, fun hx => hx.elim nofun And.left⟩
    · next hl => exact ⟨.inl, fun hx => hx.elim id fun hx => absurd hx.2 hl⟩
  constructor
  case sinks =>
    intro l hl
    rw [hc, b.graph.push_loc_of_lt x (hlt hl)]
    exact h.sinks l hl
  case source =>
    intro d t w he
    have hsrc := h.source d t w ((hedge d t w).1 he)
    refine ⟨hsrc.1, ?_⟩
    rw [hc, b.graph.push_size]
    exact Nat.lt_succ_of_lt hsrc.2
  case weight =>
    intro d t w he
    exact h.weight d t w ((hedge d t w).1 he)
  case selfless =>
    intro l w he
    exact h.selfless l w ((hedge l l w).1 he)
  case address =>
    intro d t hd he
    have hold := (hedge d t (-1)).1 he
    rw [hc, b.graph.push_loc_of_lt x hold.lt_size] at hd
    exact h.address d t hd hold
  case escapes =>
    intro l hl
    rw [hc, b.graph.push_loc] at hl ⊢
    split at hl
    · next hnew =>
      rw [if_pos hnew]
      rcases hl with rfl | hl
      · exact absurd hnew (Nat.ne_of_lt (hlt (by decide)))
      · exact hglobal hl
    · next hnew =>
      rw [if_neg hnew]
      exact h.escapes l hl
  case full =>
    intro l hl
    rw [hc, b.graph.push_loc] at hl ⊢
    split at hl
    · next hnew =>
      rw [if_pos hnew]
      exact hfull hl
    · next hnew =>
      rw [if_neg hnew]
      exact h.full l hl
  case var_iff =>
    intro v l
    rw [hvars, howner, h.var_iff]
  case site_iff =>
    intro i l
    rw [hsites, howner, h.site_iff]

theorem update (h : b.WellFormed) (l : LocId) {f : Location → Location}
    (hrole : ∀ x, (f x).role = x.role) (hedges : ∀ x, (f x).edges = x.edges)
    (hattrs : ∀ x, (f x).attrs = x.attrs) : (b.update l f).WellFormed := by
  have howner : ∀ x, ((b.update l f).graph.loc x).owner = (b.graph.loc x).owner := fun x =>
    congrArg Role.owner (b.graph.update_view Location.role l x hrole)
  have hglobal : ∀ x, ((b.update l f).graph.loc x).isGlobal = (b.graph.loc x).isGlobal := fun x =>
    congrArg Role.isGlobal (b.graph.update_view Location.role l x hrole)
  have hattr : ∀ x, ((b.update l f).graph.loc x).attrs = (b.graph.loc x).attrs := fun x =>
    b.graph.update_view Location.attrs l x hattrs
  have hescapes : ∀ x, ((b.update l f).graph.loc x).escapes = (b.graph.loc x).escapes := fun x =>
    congrArg Attrs.escapes (hattr x)
  have hedge : ∀ d t w, HasEdge (b.update l f).graph d t w ↔ HasEdge b.graph d t w := by
    intro d t w
    unfold HasEdge
    rw [show ((b.update l f).graph.loc d).edges = (b.graph.loc d).edges from
      b.graph.update_view Location.edges l d hedges]
  constructor
  case sinks =>
    intro x hx
    rw [howner]
    exact h.sinks x hx
  case source =>
    intro d t w he
    have hsrc := h.source d t w ((hedge d t w).1 he)
    exact ⟨hsrc.1, hsrc.2.trans_eq (b.graph.update_size l f).symm⟩
  case weight =>
    intro d t w he
    exact h.weight d t w ((hedge d t w).1 he)
  case selfless =>
    intro x w he
    exact h.selfless x w ((hedge x x w).1 he)
  case address =>
    intro d t hd he
    rw [hglobal] at hd
    exact h.address d t hd ((hedge d t (-1)).1 he)
  case escapes =>
    intro x hx
    rw [hglobal] at hx
    rw [hescapes]
    exact h.escapes x hx
  case full =>
    intro x hx
    rw [hescapes] at hx
    rw [hattr]
    exact h.full x hx
  case var_iff =>
    intro v x
    rw [howner]
    exact h.var_iff v x
  case site_iff =>
    intro i x
    rw [howner]
    exact h.site_iff i x

/-- The sinks alone. -/
theorem empty : ({} : BatchGraph).WellFormed := by
  have hedge : ∀ d t w, ¬ HasEdge Graph.sinks d t w := by
    rintro d t w ⟨e, he, -⟩
    rw [(Graph.sinks_loc d).1] at he
    cases he
  have howner : ∀ l x, (Graph.sinks.loc l).owner ≠ .site x := by
    intro l x hx
    have hnone := (Graph.sinks_loc l).2.2.1
    rw [hx] at hnone
    cases hnone
  constructor
  · exact fun _ _ => rfl
  · exact fun d t w he => absurd he (hedge d t w)
  · exact fun d t w he => absurd he (hedge d t w)
  · exact fun l w he => absurd he (hedge l l w)
  · exact fun d t _ => hedge d t (-1)
  · rintro l (rfl | hl)
    · rfl
    · exact absurd ((Graph.sinks_loc l).2.1.symm.trans hl) (by decide)
  · exact fun l => (Graph.sinks_loc l).2.2.2
  · exact fun v l => ⟨nofun, fun hl => absurd hl (howner l _)⟩
  · exact fun i l => ⟨nofun, fun hl => absurd hl (howner l _)⟩

end BatchGraph.WellFormed

theorem Location.IsNew.full {p : Program} {v : VarId} {x : Location} (h : x.IsNew p v) :
    (x.isGlobal = true → x.escapes = true) ∧ (x.escapes = true → Attrs.all ≤ x.attrs) := by
  unfold escapes
  rcases h.kind with ⟨hg, ha⟩ | ⟨ha, -⟩
  · rw [hg, ha]
    exact ⟨nofun, nofun⟩
  · rw [ha]
    exact ⟨fun _ => rfl, fun _ => Attrs.le_refl _⟩

theorem Change.wellFormed (h : Change s lits b b') (hb : b.WellFormed) : b'.WellFormed := by
  cases h with
  | flow hole source => exact hb.flow _ hole.derefs source
  | capture captured derefs =>
    refine hb.flow _ ?_ (hb.holds_of_var captured)
    rw [derefs]
    split <;> decide
  | temp pl persists =>
    refine hb.push rfl rfl nofun ?_ (fun v l => ?_) fun i l => ?_
    · intro he
      rw [Location.temp_escapes] at he
      cases he
    · exact ⟨.inl, fun h => h.elim id nofun⟩
    · exact ⟨.inl, fun h => h.elim id nofun⟩
  | @site pl i new =>
    refine hb.push rfl rfl nofun (fun he => ?_) (fun v l => ?_) fun j l => ?_
    · exact absurd (show Attrs.empty.escapes = true from he) (by decide)
    · exact ⟨.inl, fun h => h.elim id nofun⟩
    · rw [siteLoc?_pushSite new]
      simp [eq_comm]
  | @var v x new isNew =>
    refine hb.push rfl isNew.edges isNew.full.1 isNew.full.2 (fun w l => ?_) fun i l => ?_
    · rw [varLoc?_pushVar new, isNew.owner]
      simp [eq_comm]
    · rw [isNew.owner]
      exact ⟨.inl, fun h => h.elim id nofun⟩
  | mark l role edges attrs => exact hb.update l role edges attrs

theorem Changes.wellFormed (h : Changes s lits b b') (hb : b.WellFormed) : b'.WellFormed := by
  induction h with
  | refl => exact hb
  | tail _ hstep ih => exact hstep.wellFormed ih

end EscapeFlow
