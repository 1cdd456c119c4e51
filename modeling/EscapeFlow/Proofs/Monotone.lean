import EscapeFlow.Proofs.Covering
import EscapeFlow.Proofs.LeakSummary

/-!
# Graphs that say more

A map `ρ` takes the locations of a graph `g` to those of a graph `G` that says more when each
edge of `g` has an edge of `G` that weighs no more, and storage outlives in `G` what it outlives
in `g`.  Several locations may go to one, and an edge may be missing where it makes no
difference: its source escapes anyway, or it is its destination (`FlowsWithin`).  `Maps` says
this relative to attributes `A` of `G`.

A flow path of `g` is followed in `G` from the same root or from one that escapes, and gets no
longer (`Maps.path`).  Hence attributes that are closed for `G` are closed for `g` when they are
read through `ρ` (`Maps.closed`), and solving `g` gives no attribute and no leak that solving `G`
does not give (`Maps.solve_attrs`, `Maps.solve_leaks`).  With the identity for `ρ` this is

    g.Below G → attributes and leaks of solved g are among those of solved G      (solve_mono)

Only the sums of `g` need to be exact, since closedness of `G` holds with any adder.
-/

namespace EscapeFlow

/-- The value of `s` after at most `w` dereferences flows into `d`, or nothing comes of it when
`s` has the attributes `A s`. -/
def FlowsWithin (G : Graph) (A : LocId → Attrs) (d s : LocId) (w : Int) : Prop :=
  (∃ w', w' ≤ w ∧ HasEdge G d s w') ∨ Attrs.all ≤ A s ∨ (d = s ∧ 0 ≤ w)

/-- `G`, under the attributes `A`, says of `ρ l` what `g` says of `l`, and maybe more. -/
structure Maps (p p' : Program) (ρ : LocId → LocId) (g G : Graph) (A : LocId → Attrs) :
    Prop where
  lt : ∀ l, l < g.size → ρ l < G.size
  attrs : ∀ l, l < g.size → (g.loc l).attrs ≤ A (ρ l)
  edge : ∀ d s w, s < g.size → HasEdge g d s w → FlowsWithin G A (ρ d) (ρ s) w
  outlives : ∀ r l, r < g.size → l < g.size → outlives p g .empty r l = true →
    outlives p' G .empty (ρ r) (ρ l) = true
  func : ∀ l, l < g.size → (G.loc (ρ l)).func = (g.loc l).func
  result : ∀ l, l < g.size → (G.loc (ρ l)).result = (g.loc l).result
  isParam : ∀ l, l < g.size → (G.loc (ρ l)).isParam = (g.loc l).isParam

/-- What is learned from a root depends on the graph only by what the root outlives. -/
theorem learned_le_of_outlives {p p' : Program} {g g' : Graph} (attrs : Attrs)
    {r l r' l' : LocId} (d : Int)
    (h : outlives p g attrs r l = true → outlives p' g' attrs r' l' = true) :
    learned p g attrs r l d ≤ learned p' g' attrs r' l' d := by
  have haddr : learnedByAddress p g attrs r l ≤ learnedByAddress p' g' attrs r' l' := by
    unfold learnedByAddress
    by_cases ho : outlives p g attrs r l = true
    · rw [if_pos ho, if_pos (h ho)]
      exact Attrs.le_refl _
    · rw [if_neg ho]
      split
      · split
        · exact Attrs.le_all _
        · exact Attrs.le_refl _
      · exact Attrs.empty_le _
  unfold learned
  apply Attrs.union_le
  · refine Attrs.le_trans ?_ (Attrs.le_union_left _ _)
    split
    · exact haddr
    · exact Attrs.le_refl _
  · exact Attrs.le_union_right _ _

namespace Maps

variable {p p' : Program} {ρ : LocId → LocId} {g G : Graph} {A : LocId → Attrs}
  (h : Maps p p' ρ g G A)

include h

/-- A flow path of `g` has its counterpart in `G`: from the same root, or from one that escapes,
unless the location it comes from escapes. -/
theorem path {r l : LocId} {n : Int} (hl : l < g.size) (hp : FlowPath g Set.univ r l n) :
    (∃ x n', n' ≤ n ∧ FlowPath G Set.univ x (ρ l) n' ∧ (x = ρ r ∨ Attrs.all ≤ A x)) ∨
      Attrs.all ≤ A (ρ l) := by
  induction hp with
  | root => exact .inl ⟨ρ r, 0, Int.le_refl 0, .root, .inl rfl⟩
  | @step m n e _ he _ ih =>
    have hm : m < g.size := Graph.lt_size_of_mem_edges he
    rcases h.edge m e.src e.derefs hl ⟨e, he, rfl, rfl⟩ with ⟨w, hw, hedge⟩ | hall | ⟨hself, hw⟩
    · left
      rcases ih hm with ⟨x, n', hn', hpath, hx⟩ | hall
      · exact ⟨x, _, by omega, hedge.flowPath hpath, hx⟩
      · -- the location before escapes, and the walk starts anew there
        exact ⟨ρ m, _, by omega, hedge.flowPath .root, .inr hall⟩
    · exact .inr hall
    · rw [← hself]
      rcases ih hm with ⟨x, n', hn', hpath, hx⟩ | hall
      · exact .inl ⟨x, n', by omega, hpath, hx⟩
      · exact .inr hall

theorem outlives_of_outlives {r l : LocId} (hr : r < g.size) (hl : l < g.size) (attrs : Attrs)
    (ho : EscapeFlow.outlives p g attrs r l = true) :
    EscapeFlow.outlives p' G attrs (ρ r) (ρ l) = true := by
  rw [outlives_iff] at ho ⊢
  exact ho.imp id (h.outlives r l hr hl)

theorem closed (hA : Closed p' G A) : Closed p g fun l => A (ρ l) := by
  refine closed_of_learned_le fun r l d hl hp => ?_
  have hr := hp.root_lt hl
  have hle := learned_le_of_outlives (A (ρ r)) d (h.outlives_of_outlives hr hl (A (ρ r)))
  rcases h.path hl hp with ⟨x, n, hn, hpath, hx⟩ | hall
  · have hx : learned p' G (A (ρ r)) (ρ r) (ρ l) d ≤ learned p' G (A x) x (ρ l) d := by
      rcases hx with rfl | hx
      · exact Attrs.le_refl _
      · exact learned_le_of_all p' G hx _ _ _ _
    have hlearn := Attrs.le_trans (learned_anti p' G (A x) x (ρ l) hn)
      (hA.learned_le (h.lt l hl) hpath)
    exact Attrs.le_trans hle (Attrs.le_trans hx hlearn)
  · exact Attrs.le_trans (Attrs.le_all _) hall

/-- What a root stands for in `g` it stands for in `G`. -/
theorem records {r l : LocId} (hr : r < g.size) (hl : l < g.size) {attrs : Attrs} {s : Sink}
    (hs : Records p g attrs r l s) : Records p' G attrs (ρ r) (ρ l) s := by
  cases hs with
  | result ho he hres hf hi =>
    refine .result (h.outlives_of_outlives hr hl attrs ho) he ?_ ?_ hi
    · rw [h.result r hr, hres]
    · rw [h.func r hr, h.func l hl, hf]
  | heap ho hn =>
    refine .heap (h.outlives_of_outlives hr hl attrs ho) fun i hi hf hlt => ?_
    rw [h.result r hr] at hi
    rw [h.func r hr, h.func l hl] at hf
    exact hn i hi hf hlt
  | mutator hm => exact .mutator hm
  | callee hc => exact .callee hc

end Maps

/-! ## Solving -/

section Solving

variable {a : Adder} {p p' : Program} {ρ : LocId → LocId} {g G : Graph} {o o' : SolveOptions}
  (ho : o.maxWalks = 0) (ho' : o'.maxWalks = 0) (hG : G.Full)
  (h : Maps p p' ρ g G fun l => ((G.solveWith a p' o').graph.loc l).attrs)

include ho ho' hG h

theorem Maps.solve_attrs {l : LocId} (hl : l < g.size) :
    ((g.solveWith .exact p o).graph.loc l).attrs ≤
      ((G.solveWith a p' o').graph.loc (ρ l)).attrs := by
  obtain ⟨m, hd, hf, hm⟩ := solve_drains .exact p g o ho
  rw [hm, g.withMarks_attrs hf]
  exact hd.le_of_closed (fun r hr => List.mem_range.1 hr) h.attrs
    (h.closed (closed_solve a p' ho' hG)) l hl

/-- Whatever goes on record for a parameter of `g` goes on record for that of `G`, or the heap
does. -/
theorem Maps.solve_leaks (he : ∀ l, l < g.size → (g.loc l).leaks = .empty) {l : LocId}
    (hl : l < g.size) (hp : (g.loc l).isParam = true) :
    ((G.solveWith a p' o').graph.loc (ρ l)).leaks.optimize.Subsumes
      ((g.solveWith .exact p o).graph.loc l).leaks := by
  have hparam : (G.loc (ρ l)).isParam = true := (h.isParam l hl).trans hp
  obtain ⟨m, hd, hf, hm⟩ := solve_drains .exact p g o ho
  intro s n hn
  rw [hm, g.withMarks_loc m hl] at hn
  obtain ⟨r, d, t, hpath, hrec, ht, rfl⟩ :=
    hd.justified (fun r hr => List.mem_range.1 hr) he l s n hn
  have hr := hpath.root_lt hl
  have hattrs := h.solve_attrs ho ho' hG hr
  rw [hm, g.withMarks_attrs hf] at hattrs
  -- the record of `t` at the root that takes the place of `r`
  have key : ∀ {x n t'}, n ≤ d → FlowPath G Set.univ x (ρ l) n →
      Records p' G ((G.solveWith a p' o').graph.loc x).attrs x (ρ l) t' → t' = s ∨ t' = .heap →
      ((G.solveWith a p' o').graph.loc (ρ l)).leaks.optimize.Within s (Leaks.clampDepth d) ∨
        ((G.solveWith a p' o').graph.loc (ρ l)).leaks.optimize.Within .heap
          (Leaks.clampDepth d) := by
    intro x n t' hn hpath hrec ht'
    have hmono := Leaks.clampDepth_mono hn
    rcases optimize_solved_within a p' G o' ho' (h.lt l hl) hparam hpath hrec with hw | hw
    · rcases ht' with rfl | rfl
      · exact .inl (hw.mono hmono)
      · exact .inr (hw.mono hmono)
    · exact .inr (hw.mono hmono)
  rcases h.path hl hpath with ⟨x, n, hn, hpath, rfl | hx⟩ | hall
  · rcases (h.records hr hl hrec).mono hattrs with hrec | hrec
    · exact key hn hpath hrec ht
    · exact key hn hpath hrec (.inr rfl)
  · exact key hn hpath (records_heap_of_escapes _ _ (hx .escapes (Attrs.has_all _))) (.inr rfl)
  · -- the parameter escapes, and its own walk records the heap at depth zero
    have hrec := records_heap_of_escapes (p := p') (g := G) (ρ l) (ρ l)
      (hall .escapes (Attrs.has_all _))
    rcases optimize_solved_within a p' G o' ho' (h.lt l hl) hparam .root hrec with hw | hw
    · exact .inr (hw.mono (Nat.zero_le _))
    · exact .inr (hw.mono (Nat.zero_le _))

end Solving

/-! ## Two graphs over the same locations -/

/-- `g'` has the locations of `g`, each edge of `g` with the same or a smaller weight, and each
attribute that a location of `g` starts with. -/
structure Graph.Below (g g' : Graph) : Prop where
  size : g'.size = g.size
  func : ∀ l, l < g.size → (g'.loc l).func = (g.loc l).func
  loopDepth : ∀ l, l < g.size → (g'.loc l).loopDepth = (g.loc l).loopDepth
  result : ∀ l, l < g.size → (g'.loc l).result = (g.loc l).result
  isParam : ∀ l, l < g.size → (g'.loc l).isParam = (g.loc l).isParam
  edge : ∀ l, l < g.size → ∀ e ∈ (g.loc l).edges,
    ∃ e' ∈ (g'.loc l).edges, e'.src = e.src ∧ e'.derefs ≤ e.derefs
  attrs : ∀ l, l < g.size → ∀ a, (g.loc l).attrs.has a = true → (g'.loc l).attrs.has a = true

theorem Graph.Below.outlives_eq {g g' : Graph} (h : g.Below g') (p : Program) (attrs : Attrs)
    {r l : LocId} (hr : r < g.size) (hl : l < g.size) :
    outlives p g' attrs r l = outlives p g attrs r l := by
  unfold outlives Location.outlasts
  rw [h.result r hr, h.func r hr, h.func l hl, h.loopDepth r hr, h.loopDepth l hl]

theorem Graph.Below.maps {g g' : Graph} (h : g.Below g') (p : Program) {A : LocId → Attrs}
    (hA : ∀ l, l < g'.size → (g'.loc l).attrs ≤ A l) : Maps p p id g g' A where
  lt l hl := by rw [h.size]; exact hl
  attrs l hl := Attrs.le_trans (h.attrs l hl) (hA l (by rw [h.size]; exact hl))
  edge := by
    rintro d s w - ⟨e, he, rfl, rfl⟩
    obtain ⟨e', he', hsrc, hw⟩ := h.edge d (Graph.lt_size_of_mem_edges he) e he
    exact .inl ⟨e'.derefs, hw, e', he', hsrc, rfl⟩
  outlives r l hr hl hout := by rw [id, id, h.outlives_eq p _ hr hl]; exact hout
  func := h.func
  result := h.result
  isParam := h.isParam

/-- Optimizing only takes records away. -/
theorem Leaks.get?_of_get?_optimize {l : Leaks} {s : Sink} {n : Nat}
    (h : l.optimize.get? s = some n) : l.get? s = some n := by
  by_cases hs : s = .heap
  · subst hs
    rwa [get?_optimize_heap] at h
  · cases hh : l.get? .heap with
    | none => rwa [optimize_of_none hh] at h
    | some m =>
      rw [get?_optimize_of_heap hh hs, Option.filter_eq_some_iff] at h
      exact h.1

/-- Optimizing takes nothing away that would be missed. -/
theorem Leaks.Subsumes.of_optimize {l k : Leaks} (h : l.optimize.Subsumes k) : l.Subsumes k := by
  have hraw : ∀ {s n}, l.optimize.Within s n → l.Within s n := by
    rintro s n ⟨m, hm, hs⟩
    exact ⟨m, hm, get?_of_get?_optimize hs⟩
  intro s n hn
  exact (h s n hn).imp hraw hraw

/-- The parameter of `returnedParam` is stored one dereference deep now, the other location is
called too, and the address of the parameter gets into it. -/
def storedParam : Graph where
  locs := #[
    { owner := .heap, attrs := .all, edges := [⟨5, -1, []⟩, ⟨3, 1, []⟩] },
    { owner := .mutator, attrs := .ofAttr .mutates, edges := [⟨5, 0, []⟩] },
    { owner := .callee, attrs := .ofAttr .calls },
    { owner := .temp, func := some ⟨0⟩, isParam := true },
    { owner := .temp, func := some ⟨0⟩, result := some 0, edges := [⟨4, 1, []⟩, ⟨3, 0, []⟩] },
    { owner := .temp, func := some ⟨0⟩, attrs := .ofAttr .calls,
      edges := [⟨3, 1, []⟩, ⟨3, -1, []⟩] }]

theorem returnedParam_below_storedParam : returnedParam.Below storedParam := by
  refine ⟨rfl, by decide, by decide, by decide, by decide, by decide, ?_⟩
  intro l hl a
  revert l
  cases a <;> decide

/-- What is stored on the heap in `deepStore` is stored after five dereferences. -/
def shallowStore : Graph := deepStore.update heapId fun l => { l with edges := [⟨3, 5, []⟩] }

theorem deepStore_below_shallowStore : deepStore.Below shallowStore := by
  refine ⟨rfl, by decide, by decide, by decide, by decide, by decide, ?_⟩
  intro l hl a
  revert l
  cases a <;> decide

end EscapeFlow
