import EscapeFlow.Proofs.Inlining
import EscapeFlow.Proofs.Lockstep

/-!
# One graph covered by another

`Covers g' g` says that `g'` has the locations of `g`, and for each of its edges the same edge
or one that says more: an edge of the same weight into the heap, unless the source is the slot
of a result or escapes to begin with.  What escapes once `g` is solved then also does once `g'`
is solved, slots of results apart:

    Covers g' g → l ∈ escaping .exact p o g → l ∈ escaping a p o g' ∨ (g.loc l).result.isSome
                                                                        (Covers.mem_escaping)

A path of `g` is followed in `g'` as long as its edges are there.  At an edge that is not, the
walk starts anew at the heap or at the source, from where it gets no further than before
(`Covers.path`).
-/

namespace EscapeFlow

open BatchGraph

/-! ## Edges and changes of a graph -/

/-- There is an edge of weight `w` from `s` into `d`. -/
def HasEdge (g : Graph) (d s : LocId) (w : Int) : Prop :=
  ∃ e ∈ (g.loc d).edges, e.src = s ∧ e.derefs = w

theorem HasEdge.lt_size {g : Graph} {d s : LocId} {w : Int} (h : HasEdge g d s w) :
    d < g.size := by
  obtain ⟨e, he, -⟩ := h
  exact Graph.lt_size_of_mem_edges he

theorem HasEdge.flowPath {g : Graph} {r d s : LocId} {n w : Int} (h : HasEdge g d s w)
    (hp : FlowPath g Set.univ r d n) : FlowPath g Set.univ r s (max n 0 + w) := by
  obtain ⟨e, he, rfl, rfl⟩ := h
  exact hp.step he (Set.mem_univ _)

theorem Location.temp_escapes (f : Option FuncId) (depth : Nat) (persists : Bool) :
    (temp f depth persists).escapes = false := by
  cases persists with
  | false => exact Attrs.has_empty _
  | true => exact Attrs.has_ofAttr _ _

namespace Graph

/-- A location that is not there cannot be changed. -/
theorem update_loc_all (g : Graph) (l : LocId) (f : Location → Location) (x : LocId) :
    (g.update l f).loc x = if x = l ∧ l < g.size then f (g.loc l) else g.loc x := by
  rcases Nat.lt_or_ge l g.size with hl | hl
  · rw [g.update_loc hl]
    simp only [hl, and_true]
  · have hsame : g.locs.modify l f = g.locs := by
      refine Array.ext_getElem? fun i => ?_
      rw [Array.getElem?_modify]
      split
      · next hi =>
        subst hi
        rw [Array.getElem?_eq_none hl]
        rfl
      · rfl
    rw [if_neg fun h => Nat.not_lt.2 hl h.2]
    unfold update
    rw [hsame]

/-- What a change of a location leaves alone is the same everywhere. -/
theorem update_view {α : Type} (view : Location → α) (g : Graph) (l x : LocId)
    {f : Location → Location} (hf : ∀ y, view (f y) = view y) :
    view ((g.update l f).loc x) = view (g.loc x) := by
  rw [g.update_loc_all]
  split
  · next hx => rw [hf, hx.1]
  · rfl

/-- Beyond the last location there is nothing, before and after a new one. -/
theorem push_loc (g : Graph) (x : Location) (l : LocId) :
    (g.push x).loc l = if l = g.size then x else g.loc l := by
  rcases Nat.lt_trichotomy l g.size with hl | hl | hl
  · rw [g.push_loc_of_lt x hl, if_neg (Nat.ne_of_lt hl)]
  · rw [hl, g.push_loc_self, if_pos rfl]
  · rw [if_neg (Nat.ne_of_gt hl), g.loc_of_le l (Nat.le_of_lt hl), loc_of_le]
    rw [g.push_size]
    exact hl

theorem hasEdge_push (g : Graph) {x : Location} (hx : x.edges = []) (d s : LocId) (w : Int) :
    HasEdge (g.push x) d s w ↔ HasEdge g d s w := by
  unfold HasEdge
  rw [g.push_loc]
  split
  · next hd =>
    rw [hd, hx, g.loc_of_le g.size (Nat.le_refl _)]
  · rfl

end Graph

namespace BatchGraph

/-- The mark on the source of a flow shows neither in edges nor in attributes. -/
theorem exists_markAddr (k : Hole) (src : LocId) (b : BatchGraph) :
    ∃ b₁ : BatchGraph, (if k.addrTaken then
      b.update src fun l => { l with addrTaken := true } else b) = b₁ ∧
      b₁.graph.size = b.graph.size ∧ (∀ l, (b₁.graph.loc l).edges = (b.graph.loc l).edges) ∧
      ∀ l, (b₁.graph.loc l).attrs = (b.graph.loc l).attrs := by
  split
  · exact ⟨_, rfl, b.graph.update_size _ _, fun l => b.graph.update_view _ src l fun _ => rfl,
      fun l => b.graph.update_view _ src l fun _ => rfl⟩
  · exact ⟨b, rfl, rfl, fun _ => rfl, fun _ => rfl⟩

/-- A path that is kept for an explanation changes no location. -/
theorem exists_explain (notes : Bool) (src : LocId) (path : List Hop) (b : BatchGraph) :
    ∃ b₁ : BatchGraph, (if notes then
      ({ b with graph := b.graph.explain src path } : BatchGraph) else b) = b₁ ∧
      b₁.graph.size = b.graph.size ∧ ∀ l, b₁.graph.loc l = b.graph.loc l := by
  split
  · exact ⟨_, rfl, b.graph.explain_size _ _, fun l => b.graph.explain_loc _ l _⟩
  · exact ⟨b, rfl, rfl, fun _ => rfl⟩

/-- All that a flow can do: nothing, or make its source escape, or add an edge. -/
theorem flow_cases (notes : Bool) (k : Hole) (src : LocId) (b : BatchGraph) :
    ((k.dst = none ∨ k.dst = some src ∧ 0 ≤ k.derefs) ∧
      ∀ l, ((b.flow notes k src).graph.loc l).edges = (b.graph.loc l).edges ∧
        ((b.flow notes k src).graph.loc l).attrs = (b.graph.loc l).attrs) ∨
    (∃ dst, k.dst = some dst ∧ (b.graph.loc dst).escapes = true ∧ k.derefs < 0 ∧
      ∀ l, ((b.flow notes k src).graph.loc l).edges = (b.graph.loc l).edges ∧
        ((b.flow notes k src).graph.loc l).attrs =
          if l = src ∧ src < b.graph.size then (b.graph.loc l).attrs.union .all
          else (b.graph.loc l).attrs) ∨
    ∃ dst, k.dst = some dst ∧ ¬(dst = src ∧ 0 ≤ k.derefs) ∧
      ¬((b.graph.loc dst).escapes = true ∧ k.derefs < 0) ∧ ∃ why,
      ∀ l, ((b.flow notes k src).graph.loc l).edges =
          (if l = dst ∧ dst < b.graph.size then (b.graph.loc l).edges ++ [⟨src, k.derefs, why⟩]
          else (b.graph.loc l).edges) ∧
        ((b.flow notes k src).graph.loc l).attrs = (b.graph.loc l).attrs := by
  obtain ⟨b₁, hb₁, hsize, hedges, hattrs⟩ := exists_markAddr k src b
  have hescapes : ∀ l, (b₁.graph.loc l).escapes = (b.graph.loc l).escapes := fun l =>
    congrArg Attrs.escapes (hattrs l)
  unfold flow
  dsimp only
  rw [hb₁]
  cases k.dst with
  | none => exact .inl ⟨.inl rfl, fun l => ⟨hedges l, hattrs l⟩⟩
  | some dst =>
    dsimp only
    split
    · next hself =>
      exact .inl ⟨.inr ⟨congrArg some hself.1, hself.2⟩, fun l => ⟨hedges l, hattrs l⟩⟩
    · next hself =>
      split
      · next hesc =>
        rw [hescapes] at hesc
        refine .inr (.inl ⟨dst, rfl, hesc.1, hesc.2, fun l => ?_⟩)
        obtain ⟨b₂, hb₂, hsize₂, hloc⟩ := exists_explain
          (notes && !(b₁.graph.loc src).escapes) src [⟨dst, src, k.derefs, k.notes⟩] b₁
        rw [hb₂]
        show ((b₂.graph.update src _).loc l).edges = _ ∧ ((b₂.graph.update src _).loc l).attrs = _
        rw [Graph.update_loc_all, hsize₂, hsize, hloc, hloc]
        split
        · next hl =>
          rw [hl.1]
          exact ⟨hedges src, congrArg (Attrs.union · .all) (hattrs src)⟩
        · exact ⟨hedges l, hattrs l⟩
      · next hesc =>
        rw [hescapes] at hesc
        refine .inr (.inr ⟨dst, rfl, hself, hesc, if notes then k.notes else [], fun l => ?_⟩)
        show ((b₁.graph.update dst _).loc l).edges = _ ∧ ((b₁.graph.update dst _).loc l).attrs = _
        rw [Graph.update_loc_all, hsize]
        split
        · next hl =>
          rw [hl.1]
          exact ⟨congrArg (· ++ _) (hedges dst), hattrs dst⟩
        · exact ⟨hedges l, hattrs l⟩

section Flow

variable {notes : Bool} {k : Hole} {src : LocId} {b : BatchGraph}

theorem hasEdge_flow {d s : LocId} {w : Int} (h : HasEdge b.graph d s w) :
    HasEdge (b.flow notes k src).graph d s w := by
  obtain ⟨e, he, hs⟩ := h
  refine ⟨e, ?_, hs⟩
  rcases b.flow_cases notes k src with ⟨-, h⟩ | ⟨_, -, -, -, h⟩ | ⟨_, -, -, -, _, h⟩
  · rwa [(h d).1]
  · rwa [(h d).1]
  · rw [(h d).1]
    split
    · exact List.mem_append_left _ he
    · exact he

theorem escapes_flow {l : LocId} (h : (b.graph.loc l).escapes = true) :
    ((b.flow notes k src).graph.loc l).escapes = true := by
  show ((b.flow notes k src).graph.loc l).attrs.escapes = true
  rcases b.flow_cases notes k src with ⟨-, hf⟩ | ⟨_, -, -, -, hf⟩ | ⟨_, -, -, -, _, hf⟩
  · rwa [(hf l).2]
  · rw [(hf l).2]
    split
    · exact Attrs.le_union_left _ _ .escapes h
    · exact h
  · rwa [(hf l).2]

/-- Where an edge after a flow comes from. -/
theorem of_hasEdge_flow {d s : LocId} {w : Int}
    (h : HasEdge (b.flow notes k src).graph d s w) :
    HasEdge b.graph d s w ∨
      (k.dst = some d ∧ d < b.graph.size ∧ s = src ∧ w = k.derefs ∧
        ¬(d = src ∧ 0 ≤ k.derefs)) := by
  obtain ⟨e, he, rfl, rfl⟩ := h
  rcases b.flow_cases notes k src with ⟨-, h⟩ | ⟨_, -, -, -, h⟩ | ⟨dst, hdst, hself, -, why, h⟩
  · exact .inl ⟨e, by rwa [← (h d).1], rfl, rfl⟩
  · exact .inl ⟨e, by rwa [← (h d).1], rfl, rfl⟩
  · rw [(h d).1] at he
    split at he
    · next hd =>
      rcases List.mem_append.1 he with he | he
      · exact .inl ⟨e, he, rfl, rfl⟩
      · obtain rfl := List.mem_singleton.1 he
        rw [hd.1]
        exact .inr ⟨hdst, hd.2, rfl, rfl, hself⟩
    · exact .inl ⟨e, he, rfl, rfl⟩

/-- What escapes after a flow. -/
theorem of_escapes_flow {l : LocId} (h : ((b.flow notes k src).graph.loc l).escapes = true) :
    (b.graph.loc l).escapes = true ∨ (l = src ∧ k.derefs < 0 ∧
      ∃ dst, k.dst = some dst ∧ (b.graph.loc dst).escapes = true) := by
  replace h : ((b.flow notes k src).graph.loc l).attrs.escapes = true := h
  rcases b.flow_cases notes k src with ⟨-, hf⟩ | ⟨dst, hdst, hesc, hneg, hf⟩ | ⟨_, -, -, -, _, hf⟩
  · exact .inl (by rwa [(hf l).2] at h)
  · rw [(hf l).2] at h
    split at h
    · next hl => exact .inr ⟨hl.1, hneg, dst, hdst, hesc⟩
    · exact .inl h
  · exact .inl (by rwa [(hf l).2] at h)

theorem full_flow (h : b.graph.Full) : (b.flow notes k src).graph.Full := by
  intro l hl he
  rw [flow_size] at hl
  replace he : ((b.flow notes k src).graph.loc l).attrs.escapes = true := he
  rcases b.flow_cases notes k src with ⟨-, hf⟩ | ⟨_, -, -, -, hf⟩ | ⟨_, -, -, -, _, hf⟩
  · rw [(hf l).2] at he ⊢
    exact h l hl he
  · rw [(hf l).2] at he ⊢
    split at he
    · next hsrc =>
      rw [if_pos hsrc]
      exact Attrs.contains_union_all _
    · next hsrc =>
      rw [if_neg hsrc]
      exact h l hl he
  · rw [(hf l).2] at he ⊢
    exact h l hl he

end Flow

end BatchGraph

/-! ## Locations that escape for sure -/

/-- `l` escapes to begin with, or is the slot of a result, or its address flows into such a
location. -/
inductive Doomed (g : Graph) : LocId → Prop
  | escapes {l : LocId} : (g.loc l).escapes = true → Doomed g l
  | result {l : LocId} : (g.loc l).result.isSome = true → Doomed g l
  | address {d l : LocId} {w : Int} : HasEdge g d l w → w < 0 → Doomed g d → Doomed g l

theorem Doomed.mono {g g' : Graph} (hedge : ∀ d s w, HasEdge g d s w → HasEdge g' d s w)
    (hesc : ∀ l, (g.loc l).escapes = true → (g'.loc l).escapes = true)
    (hres : ∀ l, (g.loc l).result.isSome = true → (g'.loc l).result.isSome = true) {l : LocId}
    (h : Doomed g l) : Doomed g' l := by
  induction h with
  | escapes h => exact .escapes (hesc _ h)
  | result h => exact .result (hres _ h)
  | address h hw _ ih => exact .address (hedge _ _ _ h) hw ih

/-- `g'` has the locations of `g`, and all that flows or escapes in `g` does so in `g'`, or it
goes to the heap there, or it is about the slot of a result. -/
structure Covers (g' g : Graph) : Prop where
  size : g'.size = g.size
  role : ∀ l, (g'.loc l).role = (g.loc l).role
  loopDepth : ∀ l, (g'.loc l).loopDepth = (g.loc l).loopDepth
  full : g.Full
  full' : g'.Full
  heap : (g'.loc heapId).escapes = true
  three_le : ∀ l, (g.loc l).result.isSome = true → 3 ≤ l
  edge : ∀ d s w, HasEdge g d s w →
    HasEdge g' d s w ∨ HasEdge g' heapId s w ∨ (g'.loc s).result.isSome = true ∨
      (g'.loc s).escapes = true
  escapes : ∀ l, (g.loc l).escapes = true → Doomed g' l

theorem Covers.refl {g : Graph} (hfull : g.Full) (hheap : (g.loc heapId).escapes = true)
    (h3 : ∀ l, (g.loc l).result.isSome = true → 3 ≤ l) : Covers g g :=
  ⟨rfl, fun _ => rfl, fun _ => rfl, hfull, hfull, hheap, h3, fun _ _ _ => .inl, fun _ => .escapes⟩

theorem Graph.lt_size_of_escapes {g : Graph} {l : LocId} (h : (g.loc l).escapes = true) :
    l < g.size := by
  apply Nat.lt_of_not_le
  intro hl
  rw [g.loc_of_le l hl] at h
  cases h

namespace Covers

variable {g g' : Graph} (h : Covers g' g)

include h

theorem result_eq (l : LocId) : (g'.loc l).result = (g.loc l).result :=
  congrArg Role.result (h.role l)

theorem outlives_eq (p : Program) (r l : LocId) :
    outlives p g' .empty r l = outlives p g .empty r l := by
  have hfunc : ∀ x, (g'.loc x).func = (g.loc x).func := fun x => congrArg Role.func (h.role x)
  unfold outlives Location.outlasts
  rw [h.result_eq, hfunc, hfunc, h.loopDepth, h.loopDepth]

variable {a : Adder} {p : Program} {o : SolveOptions} (ho : o.maxWalks = 0)

include ho

/-- The address of a location that gets to one which escapes, or to the slot of a result. -/
theorem mem_escaping_of_address {r l : LocId} {n : Int} (hl : l < g'.size)
    (hpath : FlowPath g' Set.univ r l n) (hn : n < 0)
    (hr : r ∈ escaping a p o g' ∨ (g'.loc r).result.isSome = true) : l ∈ escaping a p o g' := by
  refine (escaping_escapeClosed a p g' o ho h.full').address r l n hl hpath hn (hr.imp id ?_)
  intro hres
  have h3 : 3 ≤ r := h.three_le r (by rwa [← h.result_eq])
  exact outlives_of_result h3 hres _ l

theorem mem_escaping_of_doomed {l : LocId} (hd : Doomed g' l) (hl : l < g'.size) :
    l ∈ escaping a p o g' ∨ (g'.loc l).result.isSome = true := by
  induction hd with
  | escapes he => exact .inl (mem_escaping_of_escapes a p ho h.full' he)
  | result hr => exact .inr hr
  | @address d l w hedge hw _ ih =>
    have hroot : FlowPath g' Set.univ d d 0 := .root
    have hpath := hedge.flowPath hroot
    exact .inl (h.mem_escaping_of_address ho hl hpath (by omega) (ih hedge.lt_size))

omit ho

/-- Every path of `g` is a path of `g'` that is no longer, from the same root or from one that
escapes or is the slot of a result; or it ends in such a location. -/
theorem path {r l : LocId} {n : Int} (hp : FlowPath g Set.univ r l n) :
    ∃ r' n', FlowPath g' Set.univ r' l n' ∧
      (r' = r ∨ (g'.loc r').result.isSome = true ∨ (g'.loc r').escapes = true) ∧
      (n' ≤ n ∨ n' = 0 ∧ ((g'.loc l).result.isSome = true ∨ (g'.loc l).escapes = true)) := by
  induction hp with
  | root => exact ⟨r, 0, .root, .inl rfl, .inl (Int.le_refl 0)⟩
  | @step m n e _ he _ ih =>
    obtain ⟨r', n', hpath, hr', hn'⟩ := ih
    rcases h.edge m e.src e.derefs ⟨e, he, rfl, rfl⟩ with hedge | hedge | hsrc
    · exact ⟨r', _, hedge.flowPath hpath, hr', .inl (by omega)⟩
    · -- the walk starts anew at the heap
      exact ⟨heapId, _, hedge.flowPath .root, .inr (.inr h.heap), .inl (by omega)⟩
    · exact ⟨e.src, 0, .root, .inr hsrc, .inr ⟨rfl, hsrc⟩⟩

include ho

theorem escapeClosed :
    EscapeClosed p g {l | l ∈ escaping a p o g' ∨ (g'.loc l).result.isSome = true} := by
  have hbad : ∀ l, (g'.loc l).result.isSome = true ∨ (g'.loc l).escapes = true →
      l ∈ escaping a p o g' ∨ (g'.loc l).result.isSome = true := by
    rintro l (hr | he)
    · exact .inr hr
    · exact .inl (mem_escaping_of_escapes a p ho h.full' he)
  constructor
  · intro l hl he
    exact h.mem_escaping_of_doomed ho (h.escapes l he) (by rwa [h.size])
  · intro r l n hl hp hn hr
    rw [← h.size] at hl
    obtain ⟨r', n', hpath, hr', hn' | ⟨-, hbl⟩⟩ := h.path hp
    · rcases hr' with rfl | hr'
      · rcases hr with hr | hout
        · exact .inl (h.mem_escaping_of_address ho hl hpath (by omega) hr)
        · rw [← h.outlives_eq] at hout
          exact .inl ((escaping_escapeClosed a p g' o ho h.full').address r' l n' hl hpath
            (by omega) (.inr hout))
      · exact .inl (h.mem_escaping_of_address ho hl hpath (by omega) (hbad r' hr'))
    · exact hbad l hbl

/-- What escapes in a graph escapes in one that covers it, slots of results apart. -/
theorem mem_escaping {l : LocId} (hl : l < g.size) (hin : l ∈ escaping .exact p o g) :
    l ∈ escaping a p o g' ∨ (g.loc l).result.isSome = true := by
  rw [← h.result_eq]
  exact (h.escapeClosed ho).escaping_subset o ho h.full hl hin

end Covers

/-! ## Building graphs that cover -/

theorem BatchGraph.flow_loc_view {α : Type} (view : Location → α)
    (hview : ∀ x y : Location, y.role = x.role ∧ y.loopDepth = x.loopDepth ∧ y.leaks = x.leaks →
      view y = view x)
    (notes : Bool) (k : Hole) (src : LocId) (b : BatchGraph) (l : LocId) :
    view ((b.flow notes k src).graph.loc l) = view (b.graph.loc l) :=
  flow_induct (P := fun c => view (c.graph.loc l) = view (b.graph.loc l))
    (fun c _ _ hf h => (c.graph.update_view _ _ l fun x => hview x _ (hf x)).trans h)
    (fun c _ _ h => (congrArg view (c.graph.explain_loc _ l _)).trans h) notes k src rfl

namespace Covers

variable {b b' : BatchGraph} {notes notes' : Bool} {k k' : Hole} {src : LocId}

theorem flow_role (l : LocId) :
    ((b.flow notes k src).graph.loc l).role = (b.graph.loc l).role :=
  flow_loc_view _ (fun _ _ h => h.1) _ _ _ b l

theorem flow_result (l : LocId) :
    ((b.flow notes k src).graph.loc l).result = (b.graph.loc l).result :=
  congrArg Role.result (flow_role l)

theorem flow_loopDepth (l : LocId) :
    ((b.flow notes k src).graph.loc l).loopDepth = (b.graph.loc l).loopDepth :=
  flow_loc_view _ (fun _ _ h => h.2.1) _ _ _ b l

theorem flow_leaks (l : LocId) :
    ((b.flow notes k src).graph.loc l).leaks = (b.graph.loc l).leaks :=
  flow_loc_view _ (fun _ _ h => h.2.2) _ _ _ b l

theorem doomed_flow {l : LocId} (h : Doomed b.graph l) :
    Doomed (b.flow notes k src).graph l :=
  h.mono (fun _ _ _ => hasEdge_flow) (fun _ => escapes_flow) fun l h => by rwa [flow_result]

/-- A flow in the covered graph alone, from the slot of a result. -/
theorem flow_left (h : Covers b'.graph b.graph) (hres : (b.graph.loc src).result.isSome = true) :
    Covers b'.graph (b.flow notes k src).graph where
  size := by rw [flow_size, h.size]
  role l := by rw [flow_role, h.role]
  loopDepth l := by rw [flow_loopDepth, h.loopDepth]
  full := full_flow h.full
  full' := h.full'
  heap := h.heap
  three_le l hl := h.three_le l (by rwa [flow_result] at hl)
  edge d s w hedge := by
    rcases of_hasEdge_flow hedge with hold | ⟨-, -, rfl, -⟩
    · exact h.edge d s w hold
    · exact .inr (.inr (.inl (by rwa [h.result_eq])))
  escapes l hl := by
    rcases of_escapes_flow hl with hold | ⟨rfl, -⟩
    · exact h.escapes l hold
    · exact .result (by rwa [h.result_eq])

/-- What a flow does to the destination of its hole. -/
theorem flow_fed (notes : Bool) {dst : LocId} (hk : k.dst = some dst) (hsrc : src < b.graph.size)
    (hdst : dst < b.graph.size) : Fed (b.flow notes k src).graph dst src k.derefs :=
  (flow_spec notes k src b hsrc fun d hd => by
    rw [hk] at hd
    cases hd
    exact hdst).2.2 dst hk

/-- The same flow in both graphs, or one to the heap in the graph that covers. -/
theorem flow (h : Covers b'.graph b.graph) (hd : k'.derefs = k.derefs)
    (hk : k'.dst = k.dst ∨ k'.dst = some heapId) (h3 : 3 ≤ src) (hsrc : src < b.graph.size) :
    Covers (b'.flow notes' k' src).graph (b.flow notes k src).graph where
  size := by rw [flow_size, flow_size, h.size]
  role l := by rw [flow_role, flow_role, h.role]
  loopDepth l := by rw [flow_loopDepth, flow_loopDepth, h.loopDepth]
  full := full_flow h.full
  full' := full_flow h.full'
  heap := escapes_flow h.heap
  three_le l hl := h.three_le l (by rwa [flow_result] at hl)
  edge d s w hedge := by
    rcases of_hasEdge_flow hedge with hold | ⟨hdst, hlt, rfl, rfl, hself⟩
    · rcases h.edge d s w hold with hold | hold | hold | hold
      · exact .inl (hasEdge_flow hold)
      · exact .inr (.inl (hasEdge_flow hold))
      · exact .inr (.inr (.inl (by rwa [flow_result])))
      · exact .inr (.inr (.inr (escapes_flow hold)))
    · rw [← h.size] at hsrc hlt
      rcases hk with hk | hk
      · rcases flow_fed notes' (hk.trans hdst) hsrc hlt with ⟨-, hesc⟩ | hself' | hnew
        · exact .inr (.inr (.inr hesc))
        · rw [hd] at hself'
          exact absurd hself' hself
        · rw [hd] at hnew
          exact .inl hnew
      · rcases flow_fed notes' hk hsrc (Graph.lt_size_of_escapes h.heap) with
          ⟨-, hesc⟩ | hself' | hnew
        · exact .inr (.inr (.inr hesc))
        · exact absurd hself'.1 (Nat.ne_of_lt (Nat.lt_of_lt_of_le (by decide) h3))
        · rw [hd] at hnew
          exact .inr (.inl hnew)
  escapes l hl := by
    rcases of_escapes_flow hl with hold | ⟨rfl, hneg, dst, hdst, hesc⟩
    · exact doomed_flow (h.escapes l hold)
    · rw [← h.size] at hsrc
      -- the destination in the covering graph, be it the same or the heap
      have hdst' : ∃ dst', k'.dst = some dst' ∧ dst' < b'.graph.size ∧ Doomed b'.graph dst' := by
        rcases hk with hk | hk
        · exact ⟨dst, hk.trans hdst, h.size ▸ Graph.lt_size_of_escapes hesc, h.escapes dst hesc⟩
        · exact ⟨heapId, hk, Graph.lt_size_of_escapes h.heap, .escapes h.heap⟩
      obtain ⟨dst', hk', hlt, hdoom⟩ := hdst'
      rcases flow_fed notes' hk' hsrc hlt with ⟨-, hesc⟩ | ⟨-, hpos⟩ | hnew
      · exact .escapes hesc
      · omega
      · exact .address hnew (by omega) (doomed_flow hdoom)

/-- What is there before a new location stays as it is. -/
theorem push_keeps (g : Graph) (x : Location) {α : Type} (view : Location → α) {a : α} {l : LocId}
    (hne : view { owner := .temp } ≠ a) (hl : view (g.loc l) = a) :
    view ((g.push x).loc l) = a := by
  rw [g.push_loc]
  split
  · next hsize =>
    rw [hsize, g.loc_of_le g.size (Nat.le_refl _)] at hl
    exact absurd hl hne
  · exact hl

theorem full_push {g : Graph} (hg : g.Full) {x : Location}
    (hx : x.escapes = true → x.attrs.contains .all = true) : (g.push x).Full := by
  intro l _ he
  rw [g.push_loc] at he ⊢
  split at he
  · next hl =>
    rw [if_pos hl]
    exact hx he
  · next hl =>
    rw [if_neg hl]
    exact hg l (Graph.lt_size_of_escapes he) he

/-- The same new location in both graphs. -/
theorem push {g g' : Graph} (h : Covers g' g) {x : Location} (hedges : x.edges = [])
    (hresult : x.result = none) (hfull : x.escapes = true → x.attrs.contains .all = true) :
    Covers (g'.push x) (g.push x) := by
  have hresults : ∀ l, (g'.loc l).result.isSome = true →
      ((g'.push x).loc l).result.isSome = true := fun _ =>
    push_keeps g' x (·.result.isSome) Bool.false_ne_true
  have hescapes : ∀ l, (g'.loc l).escapes = true → ((g'.push x).loc l).escapes = true := fun _ =>
    push_keeps g' x Location.escapes Bool.false_ne_true
  constructor
  · rw [g.push_size, g'.push_size, h.size]
  · intro l
    rw [g.push_loc, g'.push_loc, h.size]
    split
    · rfl
    · exact h.role l
  · intro l
    rw [g.push_loc, g'.push_loc, h.size]
    split
    · rfl
    · exact h.loopDepth l
  · exact full_push h.full hfull
  · exact full_push h.full' hfull
  · exact hescapes heapId h.heap
  · intro l hl
    rw [g.push_loc] at hl
    split at hl
    · rw [hresult] at hl
      cases hl
    · exact h.three_le l hl
  · intro d s w hedge
    rw [g.hasEdge_push hedges] at hedge
    rw [g'.hasEdge_push hedges, g'.hasEdge_push hedges]
    exact (h.edge d s w hedge).imp id (.imp id (.imp (hresults s) (hescapes s)))
  · intro l hl
    rw [g.push_loc] at hl
    split at hl
    · next hsize =>
      refine .escapes ?_
      rw [g'.push_loc, if_pos (by rw [hsize, h.size])]
      exact hl
    · exact (h.escapes l hl).mono (fun d s w he => (g'.hasEdge_push hedges d s w).2 he) hescapes
        hresults

/-- The same change of a location in both graphs, if solving does not see it. -/
theorem update {g g' : Graph} (h : Covers g' g) (l : LocId) {f : Location → Location}
    (hrole : ∀ x, (f x).role = x.role) (hedges : ∀ x, (f x).edges = x.edges)
    (hattrs : ∀ x, (f x).attrs = x.attrs)
    (hdepth : ∀ x y : Location, y.loopDepth = x.loopDepth → (f y).loopDepth = (f x).loopDepth) :
    Covers (g'.update l f) (g.update l f) := by
  have hedge : ∀ (c : Graph) d s w, HasEdge (c.update l f) d s w ↔ HasEdge c d s w := by
    intro c d s w
    unfold HasEdge
    rw [c.update_view Location.edges l d hedges]
  have hesc : ∀ (c : Graph) x, ((c.update l f).loc x).escapes = (c.loc x).escapes := fun c x =>
    c.update_view Location.escapes l x fun y => congrArg Attrs.escapes (hattrs y)
  have hres : ∀ (c : Graph) x, ((c.update l f).loc x).result = (c.loc x).result := fun c x =>
    c.update_view Location.result l x fun y => congrArg Role.result (hrole y)
  have hfulls : ∀ c : Graph, c.Full → (c.update l f).Full := by
    intro c hc x hx he
    rw [c.update_size] at hx
    rw [hesc] at he
    rw [c.update_view Location.attrs l x hattrs]
    exact hc x hx he
  constructor
  · rw [g.update_size, g'.update_size, h.size]
  · intro x
    rw [g.update_view Location.role l x hrole, g'.update_view Location.role l x hrole, h.role]
  · intro x
    rw [g.update_loc_all, g'.update_loc_all, h.size]
    split
    · exact hdepth _ _ (h.loopDepth l)
    · exact h.loopDepth x
  · exact hfulls g h.full
  · exact hfulls g' h.full'
  · rw [hesc]
    exact h.heap
  · intro x hx
    rw [hres] at hx
    exact h.three_le x hx
  · intro d s w he
    rw [hedge] at he
    rw [hedge, hedge, hres, hesc]
    exact h.edge d s w he
  · intro x hx
    rw [hesc] at hx
    exact (h.escapes x hx).mono (fun d s w => (hedge g' d s w).2) (fun y hy => by rwa [hesc])
      fun y hy => by rwa [hres]

end Covers

end EscapeFlow
