import EscapeFlow.Proofs.BodyEffects
import Mathlib

/-!
# Well-formed graphs, built and solved

Every graph that is built is well-formed, also that of a program which nothing has been checked
of.  Solving adds attributes and leaks and leaves the rest of the graph alone, whether it comes to
an end or is cut short, and what it leaves is well-formed too:

    build p fs summary? o = .ok b → b.WellFormed ∧ … ∧ ∀ a q so,
      b.graph.Solved (b.graph.solveWith a q so).graph ∧
      ({ b with graph := (b.graph.solveWith a q so).graph } : BatchGraph).WellFormed
                                                                    (build_solve_wellFormed)

A solve that is cut short ends like one that is not but for a last step, in which everything but
the sinks is made to escape (`Graph.solve_cases`).
-/

namespace EscapeFlow

open BatchGraph

/-! ## Solving, cut short or not -/

/-- What one walk leaves. -/
theorem Walk.run_keeps {a : Adder} {p : Program} {g : Graph} {record : Bool} {m : Marks}
    {todo : List LocId} {root : LocId} (relaxed : List Relaxation) (hf : m.Fits g)
    (ht : ∀ r ∈ root :: todo, r < g.size) (P : Marks → Prop)
    (hP : ∀ (w : Walk) (root l : LocId) (d : Int), w.marks.Fits g → l < g.size →
      P w.marks → P (w.learn p g record root l d).marks)
    (hm : P m) :
    P ((Walk.start g root m todo relaxed).run a p g record root).marks ∧
      ((Walk.start g root m todo relaxed).run a p g record root).marks.Fits g ∧
      ∀ r ∈ ((Walk.start g root m todo relaxed).run a p g record root).todo, r < g.size := by
  have hroot := ht root List.mem_cons_self
  have hstart := since_start g root m todo relaxed hf hroot
  have hrun := since_run a p g record root hstart
  have htodo := @Drains.lt_of_mem_todo a p g record m (root :: todo) root relaxed hf ht
    List.mem_cons_self
  rw [List.erase_cons_head] at htodo
  refine ⟨?_, hrun.fits.marks, htodo⟩
  exact marks_run a p g record root (N := fun _ _ => True) ⟨trivial, fun _ _ _ _ _ _ => trivial⟩
    hstart (genuine_start g root m _ relaxed trivial hroot) P
    (fun w l d hf hl _ => hP w root l d hf hl) hm

/-- Draining comes to its end, or stops with everything made to escape. -/
theorem drain_cases {a : Adder} {p : Program} {g : Graph} (o : SolveOptions) {m : Marks}
    {todo : List LocId} (walks : Nat) (relaxed : List Relaxation) (hf : m.Fits g)
    (ht : ∀ r ∈ todo, r < g.size)
    (P : Marks → Prop)
    (hP : ∀ (w : Walk) (root l : LocId) (d : Int), w.marks.Fits g → l < g.size →
      P w.marks → P (w.learn p g o.recordPaths root l d).marks)
    (hm : P m) :
    ∃ m', m'.Fits g ∧ P m' ∧
      (Drains a p g o.recordPaths m todo m' ∧
          (g.drain a p o m todo walks relaxed).graph = g.withMarks m' ∨
        (g.drain a p o m todo walks relaxed).graph = g.withMarks (m'.escapeAll g)) := by
  fun_induction Graph.drain a p g o m todo walks relaxed with
  | case1 m walks relaxed => exact ⟨m, hf, hm, .inl ⟨.done m, rfl⟩⟩
  | case2 m walks relaxed root rest hbound => exact ⟨m, hf, hm, .inr rfl⟩
  | case3 m walks relaxed root rest hbound ih =>
    obtain ⟨hm', hf', ht'⟩ := Walk.run_keeps relaxed hf ht P hP hm
    obtain ⟨m', hf', hm', hend⟩ := ih hf' ht' hm'
    refine ⟨m', hf', hm', hend.imp (fun hd => ⟨.walk relaxed List.mem_cons_self ?_, hd.2⟩) id⟩
    rw [List.erase_cons_head]
    exact hd.1

theorem Graph.solve_cases (a : Adder) (p : Program) (o : SolveOptions) {g : Graph} (hg : g.Full) :
    ∃ m, m.Fits g ∧ g.marks.Grows m ∧ m.Full ∧
      (Drains a p g o.recordPaths g.marks (List.range g.size) m ∧
          (g.solveWith a p o).graph = g.withMarks m ∨
        (g.solveWith a p o).graph = g.withMarks (m.escapeAll g)) := by
  obtain ⟨m, hf, hm, hend⟩ := drain_cases (a := a) (p := p) o 0 [] g.marks_fits
    (fun r hr => List.mem_range.1 hr) (fun m => g.marks.Grows m ∧ m.Full)
    (fun w root l d hf hl hm => ⟨hm.1.trans (w.learn_grows p g _ root l d hf hl),
      full_learn hf hl hm.2⟩) ⟨.refl _, hg.marks_full⟩
  exact ⟨m, hf, hm.1, hm.2, hend⟩

/-- Where everything is made to escape, the sinks keep what they have. -/
theorem Marks.escapeAll_attrsOf (g : Graph) (m : Marks) {l : LocId} (hl : l < m.attrs.size) :
    (m.escapeAll g).attrsOf l =
      if isSinkId l then m.attrsOf l else (m.attrsOf l).union .all := by
  unfold attrsOf escapeAll
  rw [Array.getD_eq_getD_getElem?, Array.getD_eq_getD_getElem?, Array.getElem?_mapIdx,
    Array.getElem?_eq_getElem hl]
  rfl

theorem Marks.escapeAll_fits {g : Graph} {m : Marks} (hf : m.Fits g) : (m.escapeAll g).Fits g :=
  ⟨(Array.size_mapIdx ..).trans hf.attrs, (Array.size_mapIdx ..).trans hf.leaks⟩

theorem Marks.le_escapeAll {g : Graph} {m : Marks} (hf : m.Fits g) {l : LocId} (hl : l < g.size) :
    m.attrsOf l ≤ (m.escapeAll g).attrsOf l := by
  rw [escapeAll_attrsOf g m (by rwa [hf.attrs])]
  split
  · exact Attrs.le_refl _
  · exact Attrs.le_union_left _ _

/-- `g'` is `g` with more attributes, and with leaks. -/
structure Graph.Solved (g g' : Graph) : Prop where
  size : g'.size = g.size
  loc : ∀ l, g'.loc l = { g.loc l with attrs := (g'.loc l).attrs, leaks := (g'.loc l).leaks }
  attrs : ∀ l, (g.loc l).attrs ≤ (g'.loc l).attrs

theorem Graph.solved_withMarks {g : Graph} {m : Marks}
    (hm : ∀ l, l < g.size → (g.loc l).attrs ≤ m.attrsOf l) : g.Solved (g.withMarks m) := by
  have hsize := g.withMarks_size m
  refine ⟨hsize, fun l => ?_, fun l => ?_⟩
  · rcases Nat.lt_or_ge l g.size with hl | hl
    · rw [g.withMarks_loc m hl]
    · rw [(g.withMarks m).loc_of_le l (by rwa [hsize]), g.loc_of_le l hl]
  · rcases Nat.lt_or_ge l g.size with hl | hl
    · rw [g.withMarks_loc m hl]
      exact hm l hl
    · rw [(g.withMarks m).loc_of_le l (by rwa [hsize]), g.loc_of_le l hl]
      exact Attrs.le_refl _

/-- Solving adds attributes only, and what escapes in the end has them all. -/
theorem Graph.solve_solved (a : Adder) (p : Program) (o : SolveOptions) {g : Graph} (hg : g.Full) :
    g.Solved (g.solveWith a p o).graph ∧ ∀ l, ((g.solveWith a p o).graph.loc l).escapes = true →
      Attrs.all ≤ ((g.solveWith a p o).graph.loc l).attrs := by
  obtain ⟨m, hf, hgrows, hfull, ⟨-, hend⟩ | hend⟩ := solve_cases a p o hg
  · rw [hend]
    refine ⟨solved_withMarks fun l _ => ?_, fun l hl => ?_⟩
    · rw [← g.marks_attrsOf]
      exact hgrows.attrs l
    · rw [g.withMarks_attrs hf]
      refine hfull l ?_
      rwa [← g.withMarks_attrs hf]
  · rw [hend]
    refine ⟨solved_withMarks fun l hl => ?_, fun l hl => ?_⟩
    · refine Attrs.le_trans ?_ (Marks.le_escapeAll hf hl)
      rw [← g.marks_attrsOf]
      exact hgrows.attrs l
    · have hlt := lt_size_of_escapes hl
      rw [withMarks_size] at hlt
      have hattrs := m.escapeAll_attrsOf g (l := l) (by rwa [hf.attrs])
      unfold Location.escapes at hl
      rw [g.withMarks_attrs (Marks.escapeAll_fits hf), hattrs] at hl ⊢
      split at hl
      · next hsink =>
        rw [if_pos hsink]
        exact hfull l hl
      · next hsink =>
        rw [if_neg hsink]
        exact Attrs.le_union_right _ _

/-! ## Graphs that are built -/

theorem Attrs.contains_all_of_le {s : Attrs} (h : all ≤ s) : s.contains all = true := by
  refine decide_eq_true ?_
  have hbit : ∀ a : Attr, s.bits.getLsbD a.bit = true := fun a => h a (has_all a)
  unfold inter all
  congr 1
  refine BitVec.eq_of_getLsbD_eq fun i hi => ?_
  rw [BitVec.getLsbD_and]
  match i, hi with
  | 0, _ => rw [show s.bits.getLsbD 0 = true from hbit .escapes]; rfl
  | 1, _ => rw [show s.bits.getLsbD 1 = true from hbit .persists]; rfl
  | 2, _ => rw [show s.bits.getLsbD 2 = true from hbit .mutates]; rfl
  | 3, _ => rw [show s.bits.getLsbD 3 = true from hbit .calls]; rfl
  | 4, _ | 5, _ | 6, _ | 7, _ => exact Bool.and_false _

theorem BatchGraph.WellFormed.graph_full {b : BatchGraph} (h : b.WellFormed) : b.graph.Full :=
  fun l _ hl => Attrs.contains_all_of_le (h.full l hl)

/-- Attributes can be added as long as what escapes gets them all. -/
theorem BatchGraph.WellFormed.solved {b : BatchGraph} (h : b.WellFormed) {g : Graph}
    (hg : b.graph.Solved g) (hfull : ∀ l, (g.loc l).escapes = true → Attrs.all ≤ (g.loc l).attrs) :
    ({ b with graph := g } : BatchGraph).WellFormed := by
  have howner : ∀ l, (g.loc l).owner = (b.graph.loc l).owner := fun l => by rw [hg.loc l]
  have hglobal : ∀ l, (g.loc l).isGlobal = (b.graph.loc l).isGlobal := fun l => by rw [hg.loc l]
  have hedges : ∀ l, (g.loc l).edges = (b.graph.loc l).edges := fun l => by rw [hg.loc l]
  have hedge : ∀ d t w, HasEdge g d t w ↔ HasEdge b.graph d t w := by
    intro d t w
    unfold HasEdge
    rw [hedges]
  constructor
  · intro l hl
    exact (howner l).trans (h.sinks l hl)
  · intro d t w he
    have hsrc := h.source d t w ((hedge d t w).1 he)
    exact ⟨hsrc.1, hsrc.2.trans_eq hg.size.symm⟩
  · intro d t w he
    exact h.weight d t w ((hedge d t w).1 he)
  · intro l w he
    exact h.selfless l w ((hedge l l w).1 he)
  · intro d t hd he
    exact h.address d t (hd.imp id (hglobal d).symm.trans) ((hedge d t (-1)).1 he)
  · intro l hl
    exact hg.attrs l .escapes (h.escapes l (hl.imp id (hglobal l).symm.trans))
  · exact hfull
  · intro v l
    show b.varLoc? v = some l ↔ (g.loc l).owner = _
    rw [howner]
    exact h.var_iff v l
  · intro i l
    show b.siteLoc? i = some l ↔ (g.loc l).owner = _
    rw [howner]
    exact h.site_iff i l

section Sinks

variable {s : Scene} {lits : SiteId → Prop} {b b' : BatchGraph}

/-- Sinks are no sources, and so do not come to escape while a graph is built. -/
theorem Change.sink_attrs (h : Change s lits b b') (hb : b.WellFormed) {l : LocId} (hl : l < 3) :
    (b'.graph.loc l).attrs = (b.graph.loc l).attrs := by
  have hflow : ∀ {k : Hole} {src : LocId}, b.Holds src →
      ((b.flow s.notes k src).graph.loc l).attrs = (b.graph.loc l).attrs := by
    intro k src hsrc
    rcases attrs_flow (b := b) s.notes k src l with hsame | ⟨rfl, -⟩
    · exact hsame
    · exact absurd hl (Nat.not_lt.2 hsrc.1)
  have hpush : ∀ x : Location, ((b.graph.push x).loc l).attrs = (b.graph.loc l).attrs := fun x =>
    congrArg Location.attrs (b.graph.push_loc_of_lt x (Nat.lt_of_lt_of_le hl hb.three_le))
  cases h with
  | flow hole source => exact hflow source
  | capture captured derefs => exact hflow (hb.holds_of_var captured)
  | temp => exact hpush _
  | site => exact hpush _
  | var => exact hpush _
  | mark l' role edges attrs => exact b.graph.update_view Location.attrs l' l attrs

theorem Changes.sink_attrs (h : Changes s lits b b') (hb : b.WellFormed) {l : LocId}
    (hl : l < 3) : (b'.graph.loc l).attrs = (b.graph.loc l).attrs := by
  induction h with
  | refl => rfl
  | tail hsteps hstep ih => exact (hstep.sink_attrs (Changes.wellFormed hsteps hb) hl).trans ih

end Sinks

theorem BatchGraph.forall₂_of_declarations {p : Program} {fs : List FuncId} {ds : List Function}
    (h : declarations p fs = .ok ds) : List.Forall₂ (fun f d => p.function? f = some d) fs ds := by
  have hds := declarations_outcome (.refl p : p.Offers False p) fs
  rw [h] at hds
  exact hds.2

theorem BatchGraph.exists_declarations {p : Program} {fs : List FuncId}
    {summary? : FuncId → Option Summary} {o : BuildOptions} {b : BatchGraph}
    (h : build p fs summary? o = .ok b) :
    ∃ ds, declarations p fs = .ok ds ∧
      List.Forall₂ (fun f d => p.function? f = some d) fs ds := by
  unfold build at h
  cases hds : declarations p fs with
  | error e =>
    rw [hds] at h
    cases h
  | ok ds => exact ⟨ds, rfl, forall₂_of_declarations hds⟩

/-- Whatever the program, a graph that is built comes from the sinks by changes, and all bodies are
seen to. -/
theorem BatchGraph.build_sees {p : Program} {fs : List FuncId}
    {summary? : FuncId → Option Summary} {o : BuildOptions} {b : BatchGraph}
    (h : build p fs summary? o = .ok b) {ds : List Function} (hds : declarations p fs = .ok ds) :
    Changes (scene p fs summary? o ds) (fun _ => False) {} b ∧
      ∀ d ∈ ds, (scene p fs summary? o ds).Sees b (bodyExprs d.stmts) ∧
        (scene p fs summary? o ds).Loses b (spawnedExprs d.stmts) := by
  let W : Watch := ⟨scene p fs summary? o ds, fun _ => False, False⟩
  have hgives := build_gives (W := W) hds rfl fun _ _ _ _ => ⟨fun _ _ hlit => hlit.elim, False.elim⟩
  rw [h] at hgives
  exact hgives

theorem BatchGraph.build_changes {p : Program} {fs : List FuncId}
    {summary? : FuncId → Option Summary} {o : BuildOptions} {b : BatchGraph}
    (h : build p fs summary? o = .ok b) : ∃ s lits, Changes s lits {} b := by
  obtain ⟨ds, hds, -⟩ := exists_declarations h
  exact ⟨_, _, (build_sees h hds).1⟩

theorem BatchGraph.wellFormed_of_build {p : Program} {fs : List FuncId}
    {summary? : FuncId → Option Summary} {o : BuildOptions} {b : BatchGraph}
    (h : build p fs summary? o = .ok b) : b.WellFormed := by
  obtain ⟨s, lits, hchanges⟩ := build_changes h
  exact hchanges.wellFormed .empty

/-- A graph that is built is well-formed: its edges start at locations that are no sinks, weigh at
least `-1`, and lead from no location to itself but by an address; no address is an edge into the
heap or a global; what escapes has all attributes; the tables of variables and allocations are
injective and say what owns a location.  Its sinks have the attributes they began with.  Solving
adds to the attributes and changes nothing else but leaks, with any adder and under any bound, and
leaves a graph that is well-formed. -/
theorem build_solve_wellFormed {p : Program} {fs : List FuncId}
    {summary? : FuncId → Option Summary} {o : BuildOptions} {b : BatchGraph}
    (h : build p fs summary? o = .ok b) :
    b.WellFormed ∧
      (∀ v w l, b.varLoc? v = some l → b.varLoc? w = some l → v = w) ∧
      (∀ i j l, b.siteLoc? i = some l → b.siteLoc? j = some l → i = j) ∧
      (∀ l, l < 3 → (b.graph.loc l).attrs = (Graph.sinks.loc l).attrs) ∧
      ∀ a q so, b.graph.Solved (b.graph.solveWith a q so).graph ∧
        ({ b with graph := (b.graph.solveWith a q so).graph } : BatchGraph).WellFormed := by
  obtain ⟨s, lits, hchanges⟩ := build_changes h
  have hb : b.WellFormed := hchanges.wellFormed .empty
  refine ⟨hb, fun v w l => hb.var_inj, fun i j l => hb.site_inj, fun l hl => ?_,
    fun a q so => ?_⟩
  · exact hchanges.sink_attrs .empty hl
  · obtain ⟨hsolved, hfull⟩ := Graph.solve_solved a q so hb.graph_full
    exact ⟨hsolved, hb.solved hsolved hfull⟩

/-- A function that lets a variable point to itself and keeps a closure over it in a global. -/
def keptClosure : Program where
  functions := #[
    { id := ⟨0⟩
      name := "f"
      locals := [⟨1⟩]
      body := some [.assign [.ident ⟨1⟩] [.addrOf (.ident ⟨1⟩)],
        .assign [.ident ⟨0⟩] [.closure ⟨0⟩ ⟨1⟩]] },
    { id := ⟨1⟩
      name := "c"
      body := some []
      enclosing := some ⟨0⟩
      captures := [⟨1⟩] }]
  vars := #[⟨⟨0⟩, "g", .globalVar, none⟩, ⟨⟨1⟩, "x", .localVar, some ⟨0⟩⟩]
  sites := #[⟨⟨0⟩, .closure, ⟨0⟩⟩]

theorem build_solve_wellFormed_keptClosure :
    ∃ b, build keptClosure [⟨0⟩, ⟨1⟩] (fun _ => none) {} = .ok b ∧ b.graph.size = 6 ∧
      b.WellFormed ∧ HasEdge b.graph 3 3 (-1) ∧
      ({ b with
        graph := (b.graph.solve keptClosure ⟨1, false⟩).graph } : BatchGraph).WellFormed := by
  have hbuild : (build keptClosure [⟨0⟩, ⟨1⟩] (fun _ => none) {}).map
      (fun b => (b.graph.size, (b.graph.loc 3).edges)) = .ok (6, [⟨3, -1, []⟩]) := by cbv
  obtain ⟨b, hb, heq⟩ := exists_of_map_eq_ok hbuild
  obtain ⟨hsize, hedges⟩ := Prod.mk.inj heq
  obtain ⟨hwf, -, -, -, hsolve⟩ := build_solve_wellFormed hb
  refine ⟨b, hb, hsize, hwf, ⟨⟨3, -1, []⟩, ?_, rfl, rfl⟩, (hsolve .int32 _ _).2⟩
  rw [hedges]
  exact List.mem_singleton.2 rfl

end EscapeFlow
