import EscapeFlow.Proofs.SumsFit
import Mathlib.Logic.Equiv.Basic

/-!
# The attributes that solving gives

Attributes are closed when each root has passed on what it should: all four to a location whose
address reaches it and that it outlives, persistence to one whose address reaches it, writes and
calls to one whose value reaches it.  Without a bound on the number of walks, solving gives closed
attributes that contain those of the graph.  Where no sum of a walk is too large for 32 bits they
are the least ones,

    g.Full → Closed p g (solved attributes)                                   (solve_closed)
    g.Full → g.SumsFit → LeastClosed p g (solved attributes)                  (solve_least)

so neither the order of edges and roots nor the numbers of locations make a difference.  A sum that
is too large comes out below zero and is taken for an address (`spurious_attributes`).
-/

namespace EscapeFlow

/-! ## Definitions -/

/-- Attributes `A` of locations that no root adds to.  Distances are over all flow paths, also
through locations that escape. -/
structure Closed (p : Program) (g : Graph) (A : LocId → Attrs) : Prop where
  address : ∀ r l d, l < g.size → Distance g Set.univ r l d → d < 0 →
    outlives p g (A r) r l = true → ∀ a, (A l).has a = true
  persists : ∀ r l d, l < g.size → Distance g Set.univ r l d → d < 0 →
    (A r).persists = true → (A l).persists = true
  mutates : ∀ r l d, l < g.size → Distance g Set.univ r l d → d ≤ 0 →
    (A r).mutates = true → (A l).mutates = true
  calls : ∀ r l d, l < g.size → Distance g Set.univ r l d → d ≤ 0 →
    (A r).calls = true → (A l).calls = true

/-- Locations that escape to begin with have all four attributes. -/
def Graph.Full (g : Graph) : Prop :=
  ∀ l, l < g.size → (g.loc l).escapes = true → (g.loc l).attrs.contains .all = true

instance (g : Graph) : Decidable g.Full :=
  inferInstanceAs (Decidable (∀ l, l < g.size → _ → _))

/-- `A` is closed, contains the attributes of the graph, and is contained in all such. -/
structure LeastClosed (p : Program) (g : Graph) (A : LocId → Attrs) : Prop where
  contains : ∀ l, l < g.size → (g.loc l).attrs ≤ A l
  closed : Closed p g A
  least : ∀ B, (∀ l, l < g.size → (g.loc l).attrs ≤ B l) → Closed p g B →
    ∀ l, l < g.size → A l ≤ B l

/-- `g'` is `g` with location `l` at the place `σ l`, and edges in any order.  The sinks for
writes and calls keep their places. -/
structure Renumbers (σ : Equiv.Perm LocId) (g g' : Graph) : Prop where
  size : g'.size = g.size
  lt : ∀ l, σ l < g.size ↔ l < g.size
  mutator : σ mutatorId = mutatorId
  callee : σ calleeId = calleeId
  loc : ∀ l, l < g.size → ∃ es, es.Perm ((g.loc l).edges.map fun e => { e with src := σ e.src }) ∧
    g'.loc (σ l) = { g.loc l with edges := es }

/-! ## Marks of a graph -/

theorem Graph.marks_attrsOf (g : Graph) (l : LocId) : g.marks.attrsOf l = (g.loc l).attrs := by
  unfold Marks.attrsOf Graph.marks Graph.loc
  rw [Array.getD_eq_getD_getElem?, Array.getD_eq_getD_getElem?, Array.getElem?_map]
  cases g.locs[l]? <;> rfl

theorem Graph.marks_leaksOf (g : Graph) (l : LocId) : g.marks.leaksOf l = (g.loc l).leaks := by
  unfold Marks.leaksOf Graph.marks Graph.loc
  rw [Array.getD_eq_getD_getElem?, Array.getD_eq_getD_getElem?, Array.getElem?_map]
  cases g.locs[l]? <;> rfl

theorem Graph.marks_fits (g : Graph) : g.marks.Fits g :=
  ⟨by simp [marks, size], by simp [marks, size]⟩

theorem Graph.withMarks_size (g : Graph) (m : Marks) : (g.withMarks m).size = g.size := by
  simp [withMarks, size]

theorem Graph.withMarks_loc (g : Graph) (m : Marks) {l : LocId} (hl : l < g.size) :
    (g.withMarks m).loc l = { g.loc l with attrs := m.attrsOf l, leaks := m.leaksOf l } := by
  rw [loc_of_lt _ l (by rw [withMarks_size]; exact hl), loc_of_lt g l hl]
  exact Array.getElem_mapIdx _

theorem Graph.withMarks_attrs (g : Graph) {m : Marks} (hf : m.Fits g) (l : LocId) :
    ((g.withMarks m).loc l).attrs = m.attrsOf l := by
  rcases Nat.lt_or_ge l g.size with hl | hl
  · rw [g.withMarks_loc m hl]
  · rw [loc_of_le _ l (by rw [withMarks_size]; exact hl)]
    unfold Marks.attrsOf
    rw [Array.getD_eq_getD_getElem?, Array.getElem?_eq_none (by rw [hf.attrs]; exact hl)]
    rfl

theorem Attrs.all_le_of_contains {s : Attrs} (h : s.contains all = true) : all ≤ s := by
  intro a _
  have h : s.inter all = all := of_decide_eq_true h
  have := has_inter s all a
  rw [h, has_all, Bool.and_true] at this
  exact this.symm

theorem Graph.Full.marks_full {g : Graph} (h : g.Full) : g.marks.Full := by
  intro l hl
  rw [marks_attrsOf] at hl ⊢
  rcases Nat.lt_or_ge l g.size with hlt | hle
  · exact Attrs.all_le_of_contains (h l hlt hl)
  · rw [g.loc_of_le l hle] at hl
    cases hl

/-! ## Closed attributes and what a root teaches -/

theorem learned_mono (p : Program) (g : Graph) {s t : Attrs} (h : s ≤ t) (root l : LocId)
    (d : Int) : learned p g s root l d ≤ learned p g t root l d := by
  have haddr : learnedByAddress p g s root l ≤ learnedByAddress p g t root l := by
    unfold learnedByAddress
    split
    · next ho =>
      rw [if_pos (outlives_mono p g h ho)]
      exact Attrs.le_refl _
    · split
      · next hp =>
        split
        · exact Attrs.le_all _
        · rw [if_pos (show t.persists = true from h .persists hp)]
          exact Attrs.le_refl _
      · exact Attrs.empty_le _
  have heff : s.inter .effects ≤ t.inter .effects := by
    intro a ha
    rw [Attrs.has_inter, Bool.and_eq_true] at ha ⊢
    exact ⟨h a ha.1, ha.2⟩
  unfold learned
  apply Attrs.union_le
  · refine Attrs.le_trans ?_ (Attrs.le_union_left _ _)
    split
    · exact haddr
    · exact Attrs.le_refl _
  · refine Attrs.le_trans ?_ (Attrs.le_union_right _ _)
    split
    · exact heff
    · exact Attrs.le_refl _

theorem Closed.learned_le {p : Program} {g : Graph} {A : LocId → Attrs} (h : Closed p g A)
    {r l : LocId} {d : Int} (hl : l < g.size) (hpath : FlowPath g Set.univ r l d) :
    learned p g (A r) r l d ≤ A l := by
  obtain ⟨n, hn, hdist⟩ := hpath.exists_distance
  refine Attrs.le_trans (learned_anti p g _ r l hn) ?_
  unfold learned learnedByAddress
  apply Attrs.union_le
  · split
    · next hneg =>
      split
      · next ho => exact fun a _ => h.address r l n hl hdist hneg ho a
      · split
        · next hp =>
          intro a ha
          rw [Attrs.has_ofAttr, decide_eq_true_eq] at ha
          exact ha ▸ h.persists r l n hl hdist hneg hp
        · exact Attrs.empty_le _
    · exact Attrs.empty_le _
  · split
    · next hle =>
      intro a ha
      rw [Attrs.has_inter, Attrs.has_effects, Bool.and_eq_true, Bool.or_eq_true,
        decide_eq_true_eq, decide_eq_true_eq] at ha
      rcases ha with ⟨ha, rfl | rfl⟩
      · exact h.mutates r l n hl hdist hle ha
      · exact h.calls r l n hl hdist hle ha
    · exact Attrs.empty_le _

theorem closed_of_learned_le {p : Program} {g : Graph} {A : LocId → Attrs}
    (h : ∀ r l d, l < g.size → FlowPath g Set.univ r l d → learned p g (A r) r l d ≤ A l) :
    Closed p g A := by
  have key : ∀ {r l d}, l < g.size → Distance g Set.univ r l d →
      learned p g (A r) r l d ≤ A l := fun hl hd => h _ _ _ hl hd.path
  refine ⟨?_, ?_, ?_, ?_⟩
  · intro r l d hl hd hneg ho a
    apply key hl hd
    simp [learned, learnedByAddress, hneg, ho]
  · intro r l d hl hd hneg hp
    apply key hl hd
    unfold learned learnedByAddress
    rw [if_pos hneg, Attrs.has_union, Bool.or_eq_true]
    left
    split
    · exact Attrs.has_all _
    · exact Attrs.has_ofAttr _ _
  · intro r l d hl hd hle hm
    apply key hl hd
    unfold learned
    rw [if_pos hle, Attrs.has_union, Attrs.has_inter, Attrs.has_effects]
    simp [show (A r).has .mutates = true from hm]
  · intro r l d hl hd hle hc
    apply key hl hd
    unfold learned
    rw [if_pos hle, Attrs.has_union, Attrs.has_inter, Attrs.has_effects]
    simp [show (A r).has .calls = true from hc]

/-- A location that escapes teaches as much as any root. -/
theorem learned_le_of_all (p : Program) (g : Graph) {s t : Attrs} (ht : Attrs.all ≤ t)
    (r x l : LocId) (d : Int) : learned p g s r l d ≤ learned p g t x l d := by
  have ho : outlives p g t x l = true := by
    unfold outlives
    rw [show t.escapes = true from ht .escapes (Attrs.has_all _)]
    rfl
  unfold learned
  apply Attrs.union_le
  · refine Attrs.le_trans ?_ (Attrs.le_union_left _ _)
    split
    · unfold learnedByAddress
      rw [if_pos ho]
      exact Attrs.le_all _
    · exact Attrs.le_refl _
  · refine Attrs.le_trans ?_ (Attrs.le_union_right _ _)
    split
    · intro a ha
      rw [Attrs.has_inter, Bool.and_eq_true] at ha ⊢
      exact ⟨ht a (Attrs.has_all a), ha.2⟩
    · exact Attrs.le_refl _

/-! ## Draining from the marks of a graph -/

section Drained

variable {a : Adder} {p : Program} {g : Graph} {record : Bool} {m : Marks} {todo : List LocId}

theorem Drains.learned_le (h : Drains a p g record g.marks todo m)
    (ht : ∀ r, r ∈ todo ↔ r < g.size) (hg : g.Full) {r l : LocId} {d : Int} (hl : l < g.size)
    (hpath : FlowPath g Set.univ r l d) : learned p g (m.attrsOf r) r l d ≤ m.attrsOf l := by
  have hb : ∀ r ∈ todo, r < g.size := fun r hr => (ht r).1 hr
  have hsat := h.saturated g.marks_fits hb fun r hr => .inl ((ht r).2 hr)
  have hfull := h.full g.marks_fits hb hg.marks_full
  rcases knows_of_flowPath hsat hl hpath with hk | he | ⟨x, hx, hk⟩
  · exact hk.attrs
  · exact Attrs.le_trans (Attrs.le_all _) (hfull l he)
  · exact Attrs.le_trans (learned_le_of_all p g (hfull x hx) r x l d) hk.attrs

theorem Drains.closed (h : Drains a p g record g.marks todo m) (ht : ∀ r, r ∈ todo ↔ r < g.size)
    (hg : g.Full) : Closed p g m.attrsOf :=
  closed_of_learned_le fun _ _ _ hl hpath => h.learned_le ht hg hl hpath

/-- With exact sums no walk sets an attribute that closed attributes do not have. -/
theorem Drains.le_of_closed (h : Drains .exact p g record g.marks todo m)
    (hb : ∀ r ∈ todo, r < g.size) {B : LocId → Attrs}
    (h0 : ∀ l, l < g.size → (g.loc l).attrs ≤ B l) (hB : Closed p g B) :
    ∀ l, l < g.size → m.attrsOf l ≤ B l := by
  refine h.marks g.marks_fits hb (fun root => FlowPath.carried g Set.univ root)
    (fun m => ∀ l, l < g.size → m.attrsOf l ≤ B l) ?_ ?_
  · intro w root l d hf hl hpath hw x hx
    have hla : l < w.marks.attrs.size := by rw [hf.attrs]; exact hl
    rcases w.learn_attrsOf p g record root l d hla x with he | ⟨rfl, -, he⟩
    · rw [he]
      exact hw x hx
    · rw [he]
      have hroot := hw root (hpath.root_lt hl)
      exact Attrs.union_le (hw x hx)
        (Attrs.le_trans (learned_mono p g hroot root x d) (hB.learned_le hl hpath))
  · intro l hl
    rw [g.marks_attrsOf]
    exact h0 l hl

theorem Drains.contains (h : Drains a p g record g.marks todo m) (hb : ∀ r ∈ todo, r < g.size)
    (l : LocId) : (g.loc l).attrs ≤ m.attrsOf l := by
  rw [← g.marks_attrsOf]
  exact (h.grows g.marks_fits hb).attrs l

theorem Drains.leastClosed (h : Drains .exact p g record g.marks todo m)
    (ht : ∀ r, r ∈ todo ↔ r < g.size) (hg : g.Full) : LeastClosed p g m.attrsOf where
  contains l _ := h.contains (fun r hr => (ht r).1 hr) l
  closed := h.closed ht hg
  least _ h0 hB := h.le_of_closed (fun r hr => (ht r).1 hr) h0 hB

end Drained

theorem solve_drains (a : Adder) (p : Program) (g : Graph) (o : SolveOptions)
    (ho : o.maxWalks = 0) :
    ∃ m, Drains a p g o.recordPaths g.marks (List.range g.size) m ∧ m.Fits g ∧
      (g.solveWith a p o).graph = g.withMarks m := by
  obtain ⟨m, hd, hm⟩ := drain_drains a p g o ho g.marks (List.range g.size) 0 []
  exact ⟨m, hd, hd.fits g.marks_fits (fun r hr => List.mem_range.1 hr), hm⟩

/-- Solving adds to the attributes of a graph. -/
theorem contains_solve (a : Adder) (p : Program) (g : Graph) {o : SolveOptions}
    (ho : o.maxWalks = 0) (l : LocId) :
    (g.loc l).attrs ≤ ((g.solveWith a p o).graph.loc l).attrs := by
  obtain ⟨m, hd, hf, hm⟩ := solve_drains a p g o ho
  rw [hm, g.withMarks_attrs hf]
  exact hd.contains (fun r hr => List.mem_range.1 hr) l

/-- Whatever the sums, the attributes are closed. -/
theorem closed_solve (a : Adder) (p : Program) {g : Graph} {o : SolveOptions}
    (ho : o.maxWalks = 0) (hg : g.Full) :
    Closed p g fun l => ((g.solveWith a p o).graph.loc l).attrs := by
  obtain ⟨m, hd, hf, hm⟩ := solve_drains a p g o ho
  rw [hm, show (fun l => ((g.withMarks m).loc l).attrs) = m.attrsOf from
    funext (g.withMarks_attrs hf)]
  exact hd.closed (fun r => List.mem_range) hg

theorem leastClosed_solve (p : Program) {g : Graph} {o : SolveOptions} (ho : o.maxWalks = 0)
    (hg : g.Full) : LeastClosed p g fun l => ((g.solveWith .exact p o).graph.loc l).attrs := by
  obtain ⟨m, hd, hf, hm⟩ := solve_drains .exact p g o ho
  rw [hm, funext (g.withMarks_attrs hf)]
  exact hd.leastClosed (fun r => List.mem_range) hg

/-! ## Renumbering -/

namespace Renumbers

variable {σ : Equiv.Perm LocId} {g g' : Graph}

/-- Locations correspond also outside of the graphs. -/
theorem loc_all (h : Renumbers σ g g') (l : LocId) :
    ∃ es, es.Perm ((g.loc l).edges.map fun e => { e with src := σ e.src }) ∧
      g'.loc (σ l) = { g.loc l with edges := es } := by
  rcases Nat.lt_or_ge l g.size with hl | hl
  · exact h.loc l hl
  · have hσ : g'.size ≤ σ l := by
      rw [h.size]
      exact Nat.le_of_not_lt fun hlt => Nat.not_lt.2 hl ((h.lt l).1 hlt)
    rw [g.loc_of_le l hl, g'.loc_of_le (σ l) hσ]
    exact ⟨[], .nil, rfl⟩

theorem symm (h : Renumbers σ g g') : Renumbers σ.symm g' g where
  size := h.size.symm
  lt l := by
    rw [h.size, ← h.lt, Equiv.apply_symm_apply]
  mutator := by rw [Equiv.symm_apply_eq, h.mutator]
  callee := by rw [Equiv.symm_apply_eq, h.callee]
  loc := by
    intro l _
    obtain ⟨es, hes, hloc⟩ := h.loc_all (σ.symm l)
    rw [Equiv.apply_symm_apply] at hloc
    refine ⟨(g.loc (σ.symm l)).edges, ?_, by rw [hloc]⟩
    rw [hloc]
    have := hes.map fun e : Edge => { e with src := σ.symm e.src }
    simpa [List.map_map, Function.comp_def] using this.symm

theorem flowPath (h : Renumbers σ g g') {r l : LocId} {d : Int}
    (hp : FlowPath g Set.univ r l d) : FlowPath g' Set.univ (σ r) (σ l) d := by
  induction hp with
  | root => exact .root
  | @step k c e _ he _ ih =>
    obtain ⟨es, hes, hloc⟩ := h.loc_all k
    have hmem : ({ e with src := σ e.src } : Edge) ∈ (g'.loc (σ k)).edges := by
      rw [hloc]
      exact hes.mem_iff.2 (List.mem_map_of_mem he)
    exact FlowPath.step ih hmem trivial

theorem outlives_eq (h : Renumbers σ g g') (p : Program) (attrs : Attrs) (r l : LocId) :
    outlives p g' attrs (σ r) (σ l) = outlives p g attrs r l := by
  obtain ⟨_, -, hr⟩ := h.loc_all r
  obtain ⟨_, -, hl⟩ := h.loc_all l
  have hm : (σ r = mutatorId) = (r = mutatorId) := by
    rw [← h.mutator, σ.injective.eq_iff, h.mutator]
  have hc : (σ r = calleeId) = (r = calleeId) := by
    rw [← h.callee, σ.injective.eq_iff, h.callee]
  unfold outlives
  simp only [hr, hl, hm, hc, ne_eq]
  rfl

theorem learned_eq (h : Renumbers σ g g') (p : Program) (attrs : Attrs) (r l : LocId) (d : Int) :
    learned p g' attrs (σ r) (σ l) d = learned p g attrs r l d := by
  unfold learned learnedByAddress
  rw [h.outlives_eq]

/-- Attributes that are closed for one graph are closed for the other. -/
theorem closed (h : Renumbers σ g g') {p : Program} {A : LocId → Attrs} (hA : Closed p g A) :
    Closed p g' (fun l => A (σ.symm l)) := by
  refine closed_of_learned_le fun r l d hl hp => ?_
  have hl' : σ.symm l < g.size := by rw [← h.size, h.symm.lt]; exact hl
  have := hA.learned_le hl' (h.symm.flowPath hp)
  rwa [h.symm.learned_eq] at this

theorem attrs_eq (h : Renumbers σ g g') (l : LocId) : (g'.loc (σ l)).attrs = (g.loc l).attrs := by
  obtain ⟨_, -, hl⟩ := h.loc_all l
  rw [hl]

/-- The least closed attributes of one graph are below those of the other. -/
theorem leastClosed_le (h : Renumbers σ g g') {p : Program} {A A' : LocId → Attrs}
    (hA : LeastClosed p g A) (hA' : LeastClosed p g' A') {l : LocId} (hl : l < g.size) :
    A' (σ l) ≤ A l := by
  have := hA'.least (fun l => A (σ.symm l)) ?_ (h.closed hA.closed) (σ l)
    (by rw [h.size]; exact (h.lt l).2 hl)
  · rwa [Equiv.symm_apply_apply] at this
  · intro k hk
    have hk' : σ.symm k < g.size := by rw [← h.size, h.symm.lt]; exact hk
    have hattrs := h.attrs_eq (σ.symm k)
    rw [Equiv.apply_symm_apply] at hattrs
    rw [hattrs]
    exact hA.contains _ hk'

theorem simplePath (h : Renumbers σ g g') {via : Set LocId} {r l : LocId} {passed : List LocId}
    {d : Int} (hp : SimplePath g via r passed l d) :
    SimplePath g' Set.univ (σ r) (passed.map σ) (σ l) d := by
  induction hp with
  | root => exact .root
  | @step passed k c e _ he _ hnew ih =>
    obtain ⟨es, hes, hloc⟩ := h.loc_all k
    have hmem : ({ e with src := σ e.src } : Edge) ∈ (g'.loc (σ k)).edges := by
      rw [hloc]
      exact hes.mem_iff.2 (List.mem_map_of_mem he)
    exact SimplePath.step ih hmem trivial fun hin =>
      hnew ((List.mem_map_of_injective σ.injective).1 hin)

/-- Sums that fit for one graph fit for the other. -/
theorem sumsFit (h : Renumbers σ g g') (hg : g.SumsFit) : g'.SumsFit := by
  intro root hr passed l d hp e he _
  have hr' : σ.symm root < g.size := by rw [← h.size, h.symm.lt]; exact hr
  obtain ⟨es, hes, hloc⟩ := h.symm.loc_all l
  have hmem : ({ e with src := σ.symm e.src } : Edge) ∈ (g.loc (σ.symm l)).edges := by
    rw [hloc]
    exact hes.mem_iff.2 (List.mem_map_of_mem he)
  exact hg _ hr' _ _ _ (h.symm.simplePath hp) { e with src := σ.symm e.src } hmem trivial

/-- Escaping locations are as full as before. -/
theorem full (h : Renumbers σ g g') (hg : g.Full) : g'.Full := by
  intro l hl he
  have hl' : σ.symm l < g.size := by rw [← h.size, h.symm.lt]; exact hl
  have hattrs := h.attrs_eq (σ.symm l)
  rw [Equiv.apply_symm_apply] at hattrs
  unfold Location.escapes at he
  rw [hattrs] at he ⊢
  exact hg _ hl' he

end Renumbers

/-! ## Locations that escape -/

/-- The locations that escape once `g` is solved. -/
def escaping (a : Adder) (p : Program) (o : SolveOptions) (g : Graph) : Set LocId :=
  {l | ((g.solveWith a p o).graph.loc l).escapes = true}

/-- A set of locations that no address which is outlived gets out of. -/
structure EscapeClosed (p : Program) (g : Graph) (B : Set LocId) : Prop where
  initial : ∀ l, l < g.size → (g.loc l).escapes = true → l ∈ B
  address : ∀ r l d, l < g.size → FlowPath g Set.univ r l d → d < 0 →
    (r ∈ B ∨ outlives p g .empty r l = true) → l ∈ B

theorem outlives_iff (p : Program) (g : Graph) (attrs : Attrs) (r l : LocId) :
    outlives p g attrs r l = true ↔
      attrs.escapes = true ∨ outlives p g .empty r l = true := by
  unfold outlives
  rw [Bool.or_eq_true, Bool.or_eq_true, show Attrs.empty.escapes = false from Attrs.has_empty _]
  simp

theorem outlives_empty_iff (p : Program) (g : Graph) (r l : LocId) :
    outlives p g .empty r l = true ↔ (r ≠ mutatorId ∧ r ≠ calleeId) ∧
      ((g.loc r).result.isSome = true ∨ (g.loc r).outlasts p (g.loc l) = true) := by
  unfold outlives
  rw [show Attrs.empty.escapes = false from Attrs.has_empty _, Bool.false_or, Bool.and_eq_true,
    Bool.and_eq_true, Bool.or_eq_true, decide_eq_true_eq, decide_eq_true_eq]

theorem escaping_escapeClosed (a : Adder) (p : Program) (g : Graph) (o : SolveOptions)
    (ho : o.maxWalks = 0) (hg : g.Full) : EscapeClosed p g (escaping a p o g) := by
  obtain ⟨m, hd, hf, hm⟩ := solve_drains a p g o ho
  have hmem : ∀ l, l ∈ escaping a p o g ↔ (m.attrsOf l).escapes = true := by
    intro l
    rw [← g.withMarks_attrs hf, ← hm]
    exact Iff.rfl
  constructor
  · intro l _ he
    rw [hmem]
    exact hd.contains (fun r hr => List.mem_range.1 hr) l .escapes he
  · intro r l d hl hpath hneg hr
    rw [hmem] at hr ⊢
    have hle := hd.learned_le (fun r => List.mem_range) hg hl hpath
    apply hle
    unfold learned learnedByAddress
    rw [if_pos hneg, if_pos ((outlives_iff p g _ r l).2 hr), Attrs.has_union, Attrs.has_all]
    rfl

theorem mem_escaping_of_escapes (a : Adder) (p : Program) {g : Graph} {o : SolveOptions}
    (ho : o.maxWalks = 0) (hg : g.Full) {l : LocId} (h : (g.loc l).escapes = true) :
    l ∈ escaping a p o g := by
  rcases Nat.lt_or_ge l g.size with hl | hl
  · exact (escaping_escapeClosed a p g o ho hg).initial l hl h
  · rw [g.loc_of_le l hl] at h
    cases h

section Least

variable (B : Set LocId) [DecidablePred (· ∈ B)]

/-- The members of `B` have all attributes, the other locations all but that they escape. -/
def attrsEscaping (l : LocId) : Attrs :=
  if l ∈ B then .all else Attrs.union (.ofAttr .persists) .effects

theorem escapes_attrsEscaping (l : LocId) : (attrsEscaping B l).escapes = true ↔ l ∈ B := by
  unfold attrsEscaping
  by_cases hl : l ∈ B
  · rw [if_pos hl]
    exact ⟨fun _ => hl, fun _ => Attrs.has_all _⟩
  · rw [if_neg hl]
    exact ⟨fun h => absurd h (by decide), fun h => absurd h hl⟩

theorem has_attrsEscaping (l : LocId) {a : Attr} (ha : a ≠ .escapes) :
    (attrsEscaping B l).has a = true := by
  unfold attrsEscaping
  by_cases hl : l ∈ B
  · rw [if_pos hl]
    exact Attrs.has_all a
  · rw [if_neg hl]
    cases a with
    | escapes => exact absurd rfl ha
    | persists | mutates | calls => decide

theorem EscapeClosed.closed {p : Program} {g : Graph} (h : EscapeClosed p g B) :
    Closed p g (attrsEscaping B) := by
  refine ⟨?_, ?_, ?_, ?_⟩
  · intro r l d hl hdist hneg hout a
    rw [outlives_iff, escapes_attrsEscaping] at hout
    unfold attrsEscaping
    rw [if_pos (h.address r l d hl hdist.path hneg hout)]
    exact Attrs.has_all a
  · exact fun _ l _ _ _ _ _ => has_attrsEscaping B l (by decide)
  · exact fun _ l _ _ _ _ _ => has_attrsEscaping B l (by decide)
  · exact fun _ l _ _ _ _ _ => has_attrsEscaping B l (by decide)

end Least

/-- With exact sums nothing escapes that a closed set does not hold. -/
theorem EscapeClosed.escaping_subset {p : Program} {g : Graph} {B : Set LocId}
    (hB : EscapeClosed p g B) (o : SolveOptions) (ho : o.maxWalks = 0) (hg : g.Full)
    {l : LocId} (hl : l < g.size) (h : l ∈ escaping .exact p o g) : l ∈ B := by
  classical
  have hinit : ∀ l, l < g.size → (g.loc l).attrs ≤ attrsEscaping B l := by
    intro l hl a ha
    by_cases hae : a = .escapes
    · subst hae
      exact (escapes_attrsEscaping B l).2 (hB.initial l hl ha)
    · exact has_attrsEscaping B l hae
  rw [← escapes_attrsEscaping B]
  exact (leastClosed_solve p ho hg).least _ hinit (hB.closed B) l hl .escapes h

/-! ## Main results -/

/-- Solving without a bound leaves closed attributes: no address that reaches a location which
outlives it is missed, by whatever path. -/
theorem solve_closed (p : Program) (g : Graph) (o : SolveOptions) (ho : o.maxWalks = 0)
    (hg : g.Full) : Closed p g fun l => ((g.solve p o).graph.loc l).attrs :=
  closed_solve .int32 p ho hg

/-- Two variables that hold the address of each other, one of which is stored on the heap: a
cycle of negative weight. -/
def addressCycle : Graph where
  locs := #[
    { owner := .heap, attrs := .all, edges := [⟨3, 0, []⟩] },
    { owner := .mutator, attrs := .ofAttr .mutates },
    { owner := .callee, attrs := .ofAttr .calls, edges := [⟨4, 1, []⟩] },
    { owner := .temp, edges := [⟨4, -1, []⟩] },
    { owner := .temp, edges := [⟨3, -1, []⟩, ⟨4, 2, []⟩] }]

theorem solve_closed_addressCycle :
    addressCycle.Full ∧
      Closed {} addressCycle fun l => ((addressCycle.solve {} {}).graph.loc l).attrs :=
  ⟨by decide, solve_closed {} addressCycle {} rfl (by decide)⟩

/-- The same variables the other way round, with the edges of one in another order. -/
def addressCycleSwapped : Graph where
  locs := #[
    { owner := .heap, attrs := .all, edges := [⟨4, 0, []⟩] },
    { owner := .mutator, attrs := .ofAttr .mutates },
    { owner := .callee, attrs := .ofAttr .calls, edges := [⟨3, 1, []⟩] },
    { owner := .temp, edges := [⟨3, 2, []⟩, ⟨4, -1, []⟩] },
    { owner := .temp, edges := [⟨3, -1, []⟩] }]

theorem renumbers_addressCycle :
    Renumbers (Equiv.swap 3 4) addressCycle addressCycleSwapped := by
  have hloc : ∀ l, l < addressCycle.size →
      (addressCycleSwapped.loc (Equiv.swap 3 4 l)).edges.Perm
        ((addressCycle.loc l).edges.map fun e => { e with src := Equiv.swap 3 4 e.src }) ∧
      addressCycleSwapped.loc (Equiv.swap 3 4 l) = { addressCycle.loc l with
        edges := (addressCycleSwapped.loc (Equiv.swap 3 4 l)).edges } := by decide
  have hlt : ∀ l : Nat, (Equiv.swap 3 4 l : Nat) < 5 ↔ l < 5 := by
    intro l
    rw [Equiv.swap_apply_def]
    split
    · omega
    · split <;> omega
  exact ⟨rfl, hlt, rfl, rfl, fun l hl => ⟨_, hloc l hl⟩⟩

theorem addressCycle_light : addressCycle.Light := by decide

/-- A location that is stored on the heap after the greatest number of dereferences, and another one
that flows into it after one more. -/
def deepStore : Graph where
  locs := #[
    { owner := .heap, attrs := .all, edges := [⟨3, 2147483647, []⟩] },
    { owner := .mutator, attrs := .ofAttr .mutates },
    { owner := .callee, attrs := .ofAttr .calls },
    { owner := .temp, edges := [⟨4, 1, []⟩] },
    { owner := .temp }]

end EscapeFlow
