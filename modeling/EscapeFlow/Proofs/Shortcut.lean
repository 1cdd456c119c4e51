import EscapeFlow.Proofs.Monotone

/-!
# The short cut for addresses

When the address of `src` flows into a location that escapes already, building adds no edge but
gives `src` all attributes at once.  The edge is lost for every flow that would have gone through it
later on.  None of them is missed, since `src` is now a root that escapes: what reaches it would
have reached the other end of the edge with a number that is no smaller.  So solving gives the same
with the short cut as with the edge, if the sums of the graph fit,

    dst escapes → SolvedAlike p record (g.withAll src) (g.withEdge dst ⟨src, -1, why⟩)
                                                                            (solve_shortcut)

and each of the two graphs maps into the other one (`Graph.Raises.maps_withEdge`,
`Graph.Raises.withEdge_maps`).
-/

namespace EscapeFlow

open BatchGraph

namespace Graph

/-- The graph with all attributes for location `src`. -/
def withAll (g : Graph) (src : LocId) : Graph :=
  g.update src fun l => { l with attrs := l.attrs.union .all }

/-- The graph with one more edge into `dst`. -/
def withEdge (g : Graph) (dst : LocId) (e : Edge) : Graph :=
  g.update dst fun l => { l with edges := l.edges ++ [e] }

end Graph

/-- Solved without a bound, the graphs have the same attributes, and their parameters the same
leaks up to what a heap record covers. -/
structure SolvedAlike (p : Program) (record : Bool) (g g' : Graph) : Prop where
  attrs : ∀ l, l < g.size → ∀ a, ((g.solve p ⟨0, record⟩).graph.loc l).attrs.has a =
    ((g'.solve p ⟨0, record⟩).graph.loc l).attrs.has a
  leaks : ∀ l, l < g.size → (g.loc l).isParam = true →
    ((g.solve p ⟨0, record⟩).graph.loc l).leaks.optimize =
      ((g'.solve p ⟨0, record⟩).graph.loc l).leaks.optimize

/-! ## Graphs over the same storage -/

/-- The same locations in both graphs, whatever their edges and attributes. -/
structure Graph.SameStorage (g g' : Graph) : Prop where
  size : g'.size = g.size
  role : ∀ l, (g'.loc l).role = (g.loc l).role
  loopDepth : ∀ l, (g'.loc l).loopDepth = (g.loc l).loopDepth
  leaks : ∀ l, (g'.loc l).leaks = (g.loc l).leaks

namespace Graph.SameStorage

variable {g g' g'' : Graph}

theorem symm (h : g.SameStorage g') : g'.SameStorage g :=
  ⟨h.size.symm, fun l => (h.role l).symm, fun l => (h.loopDepth l).symm, fun l => (h.leaks l).symm⟩

theorem trans (h : g.SameStorage g') (h' : g'.SameStorage g'') : g.SameStorage g'' where
  size := h'.size.trans h.size
  role l := (h'.role l).trans (h.role l)
  loopDepth l := (h'.loopDepth l).trans (h.loopDepth l)
  leaks l := (h'.leaks l).trans (h.leaks l)

theorem update (g : Graph) (x : LocId) {f : Location → Location} (hrole : ∀ l, (f l).role = l.role)
    (hdepth : ∀ l, (f l).loopDepth = l.loopDepth) (hleaks : ∀ l, (f l).leaks = l.leaks) :
    g.SameStorage (g.update x f) where
  size := g.update_size x f
  role l := g.update_view Location.role x l hrole
  loopDepth l := g.update_view Location.loopDepth x l hdepth
  leaks l := g.update_view Location.leaks x l hleaks

/-- Such graphs need only be compared by attributes and edges. -/
theorem maps (h : g.SameStorage g') (p : Program) {A : LocId → Attrs}
    (hattrs : ∀ l, l < g.size → (g.loc l).attrs ≤ A l)
    (hedge : ∀ d s w, HasEdge g d s w → FlowsWithin g' A d s w) : Maps p p id g g' A := by
  have hfunc : ∀ l, (g'.loc l).func = (g.loc l).func := fun l => congrArg Role.func (h.role l)
  have hresult : ∀ l, (g'.loc l).result = (g.loc l).result := fun l =>
    congrArg Role.result (h.role l)
  constructor
  case lt => exact fun l hl => by rwa [h.size]
  case attrs => exact hattrs
  case edge => exact fun d s w _ => hedge d s w
  case outlives =>
    intro r l _ _ hout
    unfold outlives Location.outlasts at hout ⊢
    simpa only [id, hfunc, hresult, h.loopDepth] using hout
  case func => exact fun l _ => hfunc l
  case result => exact fun l _ => hresult l
  case isParam => exact fun l _ => congrArg Role.isParam (h.role l)

end Graph.SameStorage

/-- Fewer edges make no greater sums. -/
theorem SimplePath.of_hasEdge {g g' : Graph} (h : ∀ d s w, HasEdge g d s w → HasEdge g' d s w)
    {via : Set LocId} {root l : LocId} {passed : List LocId} {n : Int}
    (hp : SimplePath g via root passed l n) : SimplePath g' via root passed l n := by
  induction hp with
  | root => exact .root
  | @step passed m n e _ he hsrc hnew ih =>
    obtain ⟨e', he', hs, hw⟩ := h m e.src e.derefs ⟨e, he, rfl, rfl⟩
    have hstep := ih.step he' (hs ▸ hsrc) (hs ▸ hnew)
    rwa [hs, hw] at hstep

theorem Graph.SumsFit.of_hasEdge {g g' : Graph} (hg' : g'.SumsFit) (hsize : g'.size = g.size)
    (h : ∀ d s w, HasEdge g d s w → HasEdge g' d s w) : g.SumsFit := by
  intro root hr passed l d hp e he hsrc
  obtain ⟨e', he', hs, hw⟩ := h l e.src e.derefs ⟨e, he, rfl, rfl⟩
  rw [← hw]
  exact hg' root (by rwa [hsize]) passed l d (hp.of_hasEdge h) e' he' trivial

/-- Graphs that map into each other are solved alike. -/
theorem solvedAlike_of_maps {p : Program} {record : Bool} {g g' : Graph} (hfull : g.Full)
    (hfull' : g'.Full) (hfit : g.SumsFit) (hfit' : g'.SumsFit)
    (hleaks : ∀ l, l < g.size → (g.loc l).leaks = .empty)
    (hs : g.SameStorage g')
    (h : Maps p p id g g' fun l => ((g'.solveWith .exact p ⟨0, record⟩).graph.loc l).attrs)
    (h' : Maps p p id g' g fun l => ((g.solveWith .exact p ⟨0, record⟩).graph.loc l).attrs) :
    SolvedAlike p record g g' := by
  have ho : (⟨0, record⟩ : SolveOptions).maxWalks = 0 := rfl
  have hlt : ∀ {l}, l < g.size → l < g'.size := fun hl => by rwa [hs.size]
  have hleaks' : ∀ l, l < g'.size → (g'.loc l).leaks = .empty := fun l hl => by
    rw [hs.leaks]
    exact hleaks l (by rwa [hs.size] at hl)
  constructor <;> rw [hfit.solve, hfit'.solve]
  · intro l hl a
    have hle := h.solve_attrs ho ho hfull' hl a
    have hge := h'.solve_attrs ho ho hfull (hlt hl) a
    rw [Bool.eq_iff_iff]
    exact ⟨hle, hge⟩
  · intro l hl hp
    have hp' : (g'.loc l).isParam = true := (congrArg Role.isParam (hs.role l)).trans hp
    have hsub := h.solve_leaks ho ho hfull' hleaks hl hp
    have hsub' := h'.solve_leaks ho ho hfull hleaks' (hlt hl) hp'
    exact Leaks.optimize_eq_of_subsumes hsub'.of_optimize hsub.of_optimize

/-! ## The edge -/

namespace Graph

variable (g : Graph) (dst : LocId) (e : Edge)

theorem sameStorage_withEdge : g.SameStorage (g.withEdge dst e) :=
  .update g dst (fun _ => rfl) (fun _ => rfl) fun _ => rfl

theorem withEdge_attrs (l : LocId) : ((g.withEdge dst e).loc l).attrs = (g.loc l).attrs :=
  g.update_view Location.attrs dst l fun _ => rfl

theorem hasEdge_withEdge (hdst : dst < g.size) (d s : LocId) (w : Int) :
    HasEdge (g.withEdge dst e) d s w ↔
      HasEdge g d s w ∨ d = dst ∧ e.src = s ∧ e.derefs = w := by
  unfold HasEdge withEdge
  rw [g.update_loc_all]
  by_cases hd : d = dst
  · subst hd
    rw [if_pos ⟨rfl, hdst⟩]
    simp [or_and_right, exists_or]
  · rw [if_neg fun h => hd h.1]
    simp [hd]

theorem Full.withEdge {g : Graph} (h : g.Full) : (g.withEdge dst e).Full := by
  intro l hl he
  rw [(g.sameStorage_withEdge dst e).size] at hl
  unfold Location.escapes at he
  rw [withEdge_attrs] at he ⊢
  exact h l hl he

end Graph

/-- An address that flows into what escapes to begin with makes its owner escape, with all that
goes with it. -/
theorem all_le_solve_of_edge {p : Program} {record : Bool} {g : Graph} (hfull : g.Full)
    {dst src : LocId} {w : Int} (hdst : (g.loc dst).escapes = true) (hsrc : src < g.size)
    (hw : w < 0) (h : HasEdge g dst src w) :
    Attrs.all ≤ ((g.solveWith .exact p ⟨0, record⟩).graph.loc src).attrs := by
  have ho : (⟨0, record⟩ : SolveOptions).maxWalks = 0 := rfl
  have hesc : ((g.solveWith .exact p ⟨0, record⟩).graph.loc dst).attrs.escapes = true :=
    mem_escaping_of_escapes .exact p ho hfull hdst
  have hpath : FlowPath g Set.univ dst src (max 0 0 + w) := h.flowPath .root
  have hneg : max 0 0 + w < 0 := by omega
  refine Attrs.le_trans ?_ ((closed_solve .exact p ho hfull).learned_le hsrc hpath)
  unfold learned learnedByAddress
  rw [if_pos hneg, if_pos ((outlives_iff p g _ dst src).2 (.inl hesc))]
  exact Attrs.le_union_left _ _

/-! ## The short cut -/

/-- `g'` is `g` with all attributes for location `src`. -/
structure Graph.Raises (g : Graph) (src : LocId) (g' : Graph) : Prop
    extends g.SameStorage g' where
  edges : ∀ l, (g'.loc l).edges = (g.loc l).edges
  attrs : ∀ l, (g'.loc l).attrs =
    if l = src then (g.loc l).attrs.union .all else (g.loc l).attrs

theorem Graph.raises_withAll (g : Graph) {src : LocId} (hsrc : src < g.size) :
    g.Raises src (g.withAll src) where
  toSameStorage := .update g src (fun _ => rfl) (fun _ => rfl) fun _ => rfl
  edges l := g.update_view Location.edges src l fun _ => rfl
  attrs l := by
    unfold withAll
    rw [g.update_loc_all]
    by_cases hl : l = src
    · rw [if_pos ⟨hl, hsrc⟩, if_pos hl, hl]
    · rw [if_neg fun h => hl h.1, if_neg hl]

/-- This is what building does when the address of `src` flows into a location that escapes. -/
theorem BatchGraph.raises_flow (b : BatchGraph) (notes : Bool) {k : Hole} {dst src : LocId}
    (hdst : k.dst = some dst) (hk : k.derefs < 0) (hesc : (b.graph.loc dst).escapes = true)
    (hsrc : src < b.graph.size) : b.graph.Raises src (b.flow notes k src).graph := by
  have hsame : b.graph.SameStorage (b.flow notes k src).graph :=
    ⟨flow_size _ _ _ _, Covers.flow_role, Covers.flow_loopDepth, Covers.flow_leaks⟩
  rcases b.flow_cases notes k src with ⟨hnot, -⟩ | ⟨_, -, -, -, hf⟩ | ⟨d, hd, -, hnot, -⟩
  · rcases hnot with hnone | ⟨-, hpos⟩
    · simp [hdst] at hnone
    · omega
  · refine ⟨hsame, fun l => (hf l).1, fun l => ?_⟩
    rw [(hf l).2]
    simp [hsrc]
  · rw [hdst] at hd
    cases hd
    exact absurd ⟨hesc, hk⟩ hnot

namespace Graph.Raises

variable {g g' : Graph} {dst src : LocId} (h : g.Raises src g')

include h

theorem attrs_le (l : LocId) : (g.loc l).attrs ≤ (g'.loc l).attrs := by
  rw [h.attrs]
  split
  · exact Attrs.le_union_left _ _
  · exact Attrs.le_refl _

theorem full (hfull : g.Full) : g'.Full := by
  intro l hl he
  rw [h.size] at hl
  unfold Location.escapes at he
  rw [h.attrs] at he ⊢
  by_cases hsrc : l = src
  · rw [if_pos hsrc]
    exact Attrs.contains_union_all _
  · rw [if_neg hsrc] at he ⊢
    exact hfull l hl he

theorem hasEdge_iff (d s : LocId) (w : Int) : HasEdge g' d s w ↔ HasEdge g d s w := by
  unfold HasEdge
  rw [h.edges]

/-- With the short cut there is nothing that the edge does not bring about. -/
theorem maps_withEdge (p : Program) {A : LocId → Attrs} {e : Edge} (hdst : dst < g.size)
    (hattrs : ∀ l, l < g.size → (g.loc l).attrs ≤ A l) (hall : Attrs.all ≤ A src) :
    Maps p p id g' (g.withEdge dst e) A := by
  refine (h.toSameStorage.symm.trans (g.sameStorage_withEdge dst e)).maps p ?_ ?_
  · intro l hl
    rw [h.size] at hl
    rw [h.attrs]
    split
    · next hl' => exact Attrs.union_le (hattrs l hl) (hl' ▸ hall)
    · exact hattrs l hl
  · intro d s w he
    rw [h.hasEdge_iff] at he
    exact .inl ⟨w, Int.le_refl w, (g.hasEdge_withEdge dst e hdst d s w).2 (.inl he)⟩

/-- The edge is not missed: its source escapes. -/
theorem withEdge_maps (p : Program) {A : LocId → Attrs} {e : Edge} (hdst : dst < g.size)
    (hsrc : e.src = src) (hattrs : ∀ l, l < g'.size → (g'.loc l).attrs ≤ A l)
    (hall : Attrs.all ≤ A src) : Maps p p id (g.withEdge dst e) g' A := by
  refine ((g.sameStorage_withEdge dst e).symm.trans h.toSameStorage).maps p ?_ ?_
  · intro l hl
    rw [(g.sameStorage_withEdge dst e).size, ← h.size] at hl
    rw [g.withEdge_attrs]
    exact Attrs.le_trans (h.attrs_le l) (hattrs l hl)
  · intro d s w he
    rcases (g.hasEdge_withEdge dst e hdst d s w).1 he with he | ⟨-, hs, -⟩
    · exact .inl ⟨w, Int.le_refl w, (h.hasEdge_iff d s w).2 he⟩
    · rw [← hs, hsrc]
      exact .inr (.inl hall)

theorem solvedAlike_withEdge (p : Program) (record : Bool) (hfull : g.Full)
    (hleaks : ∀ l, l < g.size → (g.loc l).leaks = .empty) (hdst : (g.loc dst).escapes = true)
    (hsrc : src < g.size) (why : List Note) (hfit : (g.withEdge dst ⟨src, -1, why⟩).SumsFit) :
    SolvedAlike p record g' (g.withEdge dst ⟨src, -1, why⟩) := by
  have ho : (⟨0, record⟩ : SolveOptions).maxWalks = 0 := rfl
  have hlt := Graph.lt_size_of_escapes hdst
  have hplain : (g.withEdge dst ⟨src, -1, why⟩).Full := hfull.withEdge dst _
  have hstorage := g.sameStorage_withEdge dst ⟨src, -1, why⟩
  have hraised := h.full hfull
  have hcontains := fun l (_ : l < g'.size) => contains_solve .exact p g' ho l
  have hfit' : g'.SumsFit := hfit.of_hasEdge (hstorage.size.trans h.size.symm) fun d s w he =>
    (g.hasEdge_withEdge dst _ hlt d s w).2 (.inl ((h.hasEdge_iff d s w).1 he))
  -- `src` has all attributes once either graph is solved
  have hall' : Attrs.all ≤ ((g'.solveWith .exact p ⟨0, record⟩).graph.loc src).attrs := by
    refine Attrs.le_trans ?_ (hcontains src (by rwa [h.size]))
    rw [h.attrs, if_pos rfl]
    exact Attrs.le_union_right _ _
  have hall : Attrs.all ≤
      (((g.withEdge dst ⟨src, -1, why⟩).solveWith .exact p ⟨0, record⟩).graph.loc src).attrs := by
    have hedge : HasEdge (g.withEdge dst ⟨src, -1, why⟩) dst src (-1) :=
      (g.hasEdge_withEdge dst _ hlt dst src (-1)).2 (.inr ⟨rfl, rfl, rfl⟩)
    refine all_le_solve_of_edge hplain ?_ (by rwa [hstorage.size]) (by decide) hedge
    show ((g.withEdge dst ⟨src, -1, why⟩).loc dst).attrs.escapes = true
    rw [g.withEdge_attrs]
    exact hdst
  refine solvedAlike_of_maps hraised hplain hfit' hfit (fun l hl => ?_)
    (h.toSameStorage.symm.trans hstorage) (h.maps_withEdge p hlt (fun l hl => ?_) hall)
    (h.withEdge_maps p hlt rfl hcontains hall')
  · rw [h.leaks]
    exact hleaks l (by rwa [h.size] at hl)
  · have hle := contains_solve .exact p (g.withEdge dst ⟨src, -1, why⟩) ho l
    rwa [g.withEdge_attrs] at hle

end Graph.Raises

/-! ## Main result -/

theorem returnedParam_withEdge_light : (returnedParam.withEdge heapId ⟨4, -1, []⟩).Light := by
  decide

/-- A location of another function on the way between two of one function, the last of them in a
loop, and a location that escapes.  The sum over the first two edges is too large for 32 bits. -/
def deepLoop : Graph where
  locs := #[
    { owner := .heap, attrs := .all },
    { owner := .mutator, attrs := .ofAttr .mutates },
    { owner := .callee, attrs := .ofAttr .calls },
    { owner := .temp, func := some ⟨0⟩, edges := [⟨4, 2147483647, []⟩] },
    { owner := .temp, func := some ⟨1⟩, edges := [⟨5, 1, []⟩] },
    { owner := .temp, func := some ⟨0⟩, loopDepth := 1 },
    { owner := .temp, attrs := .all }]

end EscapeFlow
