import EscapeFlow.Proofs.AnalysisRun
import EscapeFlow.Proofs.PreciseCalls
import Mathlib

/-!
# Diagnostics change nothing else

From level 2 on edges carry notes, and for locations that escape a flow path is kept.  Both are
for messages only.  Graphs are alike when they are the same up to notes and paths, and so are
graphs that are built at different levels, and what solving makes of them:

    Outcome False BatchGraph.Alike (build p fs summary? ⟨precise, notes⟩)
      (build p fs summary? ⟨precise, notes'⟩)                                   (build_alike)
    g.Alike g' → (g.solveWith a p ⟨n, record⟩).Alike (g'.solveWith a p ⟨n, record'⟩)
                                                                              (Graph.Alike.solve)

Walks are alike when they have reached the same locations with the same numbers, by whatever
edge they remember.  So an analysis fails at all levels, or gives at all levels the same decisions,
summaries and counts (`analyze_sameFindings`).  It fails with the same error, too, except that
batches which are analysed at the same time and fail may be done in another order.
-/

namespace EscapeFlow

open BatchGraph

/-! ## Graphs -/

def Edge.bare (e : Edge) : Edge := { e with notes := [] }

/-- The location without the notes at its edges. -/
def Location.bare (x : Location) : Location := { x with edges := x.edges.map Edge.bare }

/-- The same locations and edges, whatever the notes and the paths. -/
structure Graph.Alike (g g' : Graph) : Prop where
  size : g'.size = g.size
  loc : ∀ l, (g'.loc l).bare = (g.loc l).bare

namespace Graph.Alike

variable {g g' : Graph} (h : g.Alike g')

include h

/-- What does not look at notes sees the same location. -/
theorem view {α : Type} {f : Location → α} (hf : ∀ x, f x.bare = f x) (l : LocId) :
    f (g'.loc l) = f (g.loc l) := by
  rw [← hf, h.loc, hf]

theorem func (l : LocId) : (g'.loc l).func = (g.loc l).func := h.view (fun _ => rfl) l

theorem result (l : LocId) : (g'.loc l).result = (g.loc l).result := h.view (fun _ => rfl) l

theorem isParam (l : LocId) : (g'.loc l).isParam = (g.loc l).isParam := h.view (fun _ => rfl) l

theorem escapes (l : LocId) : (g'.loc l).escapes = (g.loc l).escapes := h.view (fun _ => rfl) l

theorem push {x x' : Location} (hx : x'.bare = x.bare) : (g.push x).Alike (g'.push x') where
  size := by rw [g.push_size, g'.push_size, h.size]
  loc l := by
    rw [g.push_loc, g'.push_loc, h.size]
    split
    · exact hx
    · exact h.loc l

theorem update (l : LocId) {f f' : Location → Location}
    (hf : ∀ x x' : Location, x'.bare = x.bare → (f' x').bare = (f x).bare) :
    (g.update l f).Alike (g'.update l f') where
  size := by rw [g.update_size, g'.update_size, h.size]
  loc x := by
    rw [g.update_loc_all, g'.update_loc_all, h.size]
    split
    · exact hf _ _ (h.loc l)
    · exact h.loc x

theorem explain_left (l : LocId) (hops : List Hop) : (g.explain l hops).Alike g' where
  size := by rw [g.explain_size, h.size]
  loc x := by rw [g.explain_loc, h.loc]

theorem symm : g'.Alike g := ⟨h.size.symm, fun l => (h.loc l).symm⟩

theorem map_bare : g'.locs.toList.map Location.bare = g.locs.toList.map Location.bare := by
  refine List.ext_getElem? fun i => ?_
  have hi := h.loc i
  have hsize : g'.locs.toList.length = g.locs.toList.length := h.size
  rw [List.getElem?_map, List.getElem?_map]
  rcases Nat.lt_or_ge i g.locs.toList.length with hlt | hge
  · have hlt' : i < g'.locs.toList.length := by omega
    rw [List.getElem?_eq_getElem hlt, List.getElem?_eq_getElem hlt']
    rw [g.loc_eq_of_getElem? (List.getElem?_eq_getElem hlt),
      g'.loc_eq_of_getElem? (List.getElem?_eq_getElem hlt')] at hi
    exact congrArg some hi
  · rw [List.getElem?_eq_none hge, List.getElem?_eq_none (by omega)]

theorem map_eq {α : Type} {f : Location → α} (hf : ∀ x, f x.bare = f x) :
    g'.locs.toList.map f = g.locs.toList.map f := by
  have hfun : f = f ∘ Location.bare := funext fun x => (hf x).symm
  rw [hfun, ← List.map_map, ← List.map_map, h.map_bare]

end Graph.Alike

/-! ## Walks -/

theorem Graph.Alike.outlives_eq {g g' : Graph} (h : g.Alike g') (p : Program) :
    outlives p g' = outlives p g := by
  funext attrs r l
  have hdepth : ∀ x, (g'.loc x).loopDepth = (g.loc x).loopDepth := h.view fun _ => rfl
  unfold outlives Location.outlasts
  rw [h.func, h.func, hdepth, hdepth, h.result]

theorem Graph.Alike.learned_eq {g g' : Graph} (h : g.Alike g') (p : Program) :
    learned p g' = learned p g := by
  funext attrs r l d
  unfold learned learnedByAddress
  rw [h.outlives_eq]

theorem Graph.Alike.leaked_eq {g g' : Graph} (h : g.Alike g') (p : Program) :
    leaked p g' = leaked p g := by
  funext attrs r l d leaks
  unfold leaked leakSink
  rw [h.outlives_eq, h.isParam, h.result, h.func, h.func]

/-- Everything but the paths is the same. -/
structure Marks.Alike (m m' : Marks) : Prop where
  attrs : m'.attrs = m.attrs
  leaks : m'.leaks = m.leaks

/-- Two walks that have got equally far, by whatever edges. -/
structure Walk.Alike (w w' : Walk) : Prop where
  marks : w.marks.Alike w'.marks
  todo : w'.todo = w.todo
  visits : w'.visits.map (·.map Visit.derefs) = w.visits.map (·.map Visit.derefs)
  stack : w'.stack = w.stack
  relaxed : w'.relaxed = w.relaxed

namespace Walk

theorem start_alike {g g' : Graph} (hg : g.Alike g') (root : LocId) {m m' : Marks}
    (hm : m.Alike m') (todo : List LocId) (relaxed : List Relaxation) :
    (start g root m todo relaxed).Alike (start g' root m' todo relaxed) := by
  refine ⟨hm, rfl, ?_, rfl, rfl⟩
  unfold start
  rw [hg.size]

theorem lowers_eq {v v' : Option Visit} (h : v'.map Visit.derefs = v.map Visit.derefs) (d : Int) :
    lowers d v' = lowers d v := by
  cases v with
  | none =>
    cases v' with
    | none => rfl
    | some _ => cases h
  | some x =>
    cases v' with
    | none => cases h
    | some x' =>
      have hx : x'.derefs = x.derefs := Option.some.inj h
      show decide (d < x'.derefs) = decide (d < x.derefs)
      rw [hx]

namespace Alike

variable {w w' : Walk} (h : w.Alike w')

include h

theorem attrsOf (l : LocId) : w'.marks.attrsOf l = w.marks.attrsOf l := by
  unfold Marks.attrsOf
  rw [h.marks.attrs]

theorem visit (l : LocId) :
    (w'.visits[l]?).map (·.map Visit.derefs) = (w.visits[l]?).map (·.map Visit.derefs) := by
  rw [← Array.getElem?_map, ← Array.getElem?_map, h.visits]

theorem relax (a : Adder) (l : LocId) (d : Int) {e e' : Edge} (hsrc : e'.src = e.src)
    (hderefs : e'.derefs = e.derefs) : (relax a l d w e).Alike (relax a l d w' e') := by
  unfold Walk.relax
  rw [h.attrsOf, hsrc, hderefs]
  split
  · exact h
  · have hvisit := h.visit e.src
    cases hv : w.visits[e.src]? with
    | none =>
      rw [hv] at hvisit
      rw [Option.map_eq_none_iff.1 hvisit]
      exact h
    | some old =>
      rw [hv] at hvisit
      obtain ⟨old', hv', hold⟩ := Option.map_eq_some_iff.1 hvisit
      rw [hv']
      dsimp only
      rw [lowers_eq hold]
      split
      · refine ⟨h.marks, h.todo, ?_, ?_, ?_⟩
        · rw [Array.map_setIfInBounds, Array.map_setIfInBounds, h.visits]
          rfl
        · rw [h.stack]
        · rw [h.relaxed]
      · exact h

theorem foldl_relax (a : Adder) (l : LocId) (d : Int) {es es' : List Edge}
    (hes : es'.map Edge.bare = es.map Edge.bare) :
    (es.foldl (Walk.relax a l d) w).Alike (es'.foldl (Walk.relax a l d) w') := by
  induction es generalizing w w' es' with
  | nil =>
    rw [List.map_nil, List.map_eq_nil_iff] at hes
    rw [hes]
    exact h
  | cons e es ih =>
    cases es' with
    | nil => cases hes
    | cons e' es' =>
      obtain ⟨he, hes⟩ := List.cons.inj hes
      have hsrc : e'.src = e.src := show e'.bare.src = e.bare.src from congrArg Edge.src he
      have hderefs : e'.derefs = e.derefs :=
        show e'.bare.derefs = e.bare.derefs from congrArg Edge.derefs he
      exact ih (h.relax a l d hsrc hderefs) hes

theorem lacks_eq (l : LocId) (new : Attrs) : w'.marks.lacks l new = w.marks.lacks l new := by
  unfold Marks.lacks
  rw [h.marks.attrs]

variable {p : Program} {g g' : Graph} (hg : g.Alike g')

include hg

theorem mark (record record' : Bool) (root l : LocId) (d : Int) :
    (w.mark p g record root l d).Alike (w'.mark p g' record' root l d) := by
  refine ⟨by rw [mark_attrs, mark_attrs, h.marks.attrs], ?_⟩
  have hleaks : ∀ (x : Walk) (r : Bool) (G : Graph), (x.mark p G r root l d).leaks =
      x.marks.leaks.modify l (leaked p G (x.marks.attrsOf root) root l d) := by
    intro x r G
    unfold Walk.mark markPath
    dsimp only
    split
    · split <;> rfl
    · rfl
  rw [hleaks, hleaks, h.marks.leaks, h.attrsOf, hg.leaked_eq]

theorem learn (record record' : Bool) (root l : LocId) (d : Int) :
    (w.learn p g record root l d).Alike (w'.learn p g' record' root l d) := by
  have hmark := h.mark (p := p) hg record record' root l d
  unfold Walk.learn
  dsimp only
  rw [h.attrsOf, hg.learned_eq, h.lacks_eq]
  split
  · refine ⟨⟨?_, hmark.leaks⟩, ?_, h.visits, h.stack, h.relaxed⟩
    · unfold Marks.gain
      rw [hmark.attrs]
    · rw [h.todo]
  · exact ⟨hmark, h.todo, h.visits, h.stack, h.relaxed⟩

theorem step (a : Adder) (record record' : Bool) (root l : LocId) :
    (w.step a p g record root l).Alike (w'.step a p g' record' root l) := by
  have hvisit := h.visit l
  unfold Walk.step turnsEscaping
  rw [Array.getD_eq_getD_getElem?, Array.getD_eq_getD_getElem?]
  cases hv : (w.visits[l]?).getD none with
  | none =>
    have hv' : (w'.visits[l]?).getD none = none := by
      cases hget : w.visits[l]? with
      | none =>
        rw [hget] at hvisit
        rw [Option.map_eq_none_iff.1 hvisit]
        rfl
      | some v =>
        rw [hget] at hv hvisit
        obtain ⟨v', hget', hv'⟩ := Option.map_eq_some_iff.1 hvisit
        rw [hget']
        rw [show v = none from hv] at hv'
        exact Option.map_eq_none_iff.1 hv'
    rw [hv']
    exact h
  | some v =>
    have hv' : ∃ v', (w'.visits[l]?).getD none = some v' ∧ v'.derefs = v.derefs := by
      cases hget : w.visits[l]? with
      | none => rw [hget] at hv; cases hv
      | some x =>
        rw [hget] at hv hvisit
        obtain ⟨x', hget', hx'⟩ := Option.map_eq_some_iff.1 hvisit
        rw [show x = some v from hv] at hx'
        obtain ⟨v', rfl, hd⟩ := Option.map_eq_some_iff.1 hx'
        exact ⟨v', by rw [hget']; rfl, hd⟩
    obtain ⟨v', hv', hd⟩ := hv'
    rw [hv']
    dsimp only
    have hlearn := h.learn (p := p) hg record record' root l v.derefs
    simp only [hd, h.attrsOf, hg.learned_eq, h.lacks_eq]
    split
    · exact hlearn
    · exact hlearn.foldl_relax a l _ (congrArg Location.edges (hg.loc l))

/-- Walks that are alike end alike. -/
theorem run (a : Adder) (record record' : Bool) (root : LocId) :
    (w.run a p g record root).Alike (w'.run a p g' record' root) := by
  fun_induction Walk.run a p g record root w generalizing w' with
  | case1 w hstack =>
    have hstack' : w'.stack = [] := h.stack.trans hstack
    rw [run_of_nil a p g' record' root hstack']
    exact h
  | case2 w l rest hstack ih =>
    have hstack' : w'.stack = l :: rest := h.stack.trans hstack
    rw [run_of_cons a p g' record' root hstack']
    have hpop : ({ w with stack := rest } : Walk).Alike { w' with stack := rest } :=
      ⟨h.marks, h.todo, h.visits, rfl, h.relaxed⟩
    exact ih (hpop.step hg a record record' root l)

end Alike

end Walk

/-! ## Solving -/

structure Solution.Alike (s s' : Solution) : Prop where
  graph : s.graph.Alike s'.graph
  walks : s'.walks = s.walks
  pending : s'.pending = s.pending

theorem Graph.Alike.withMarks {g g' : Graph} (h : g.Alike g') {m m' : Marks} (hm : m.Alike m') :
    (g.withMarks m).Alike (g'.withMarks m') where
  size := by rw [g.withMarks_size, g'.withMarks_size, h.size]
  loc l := by
    rcases Nat.lt_or_ge l g.size with hl | hl
    · have hl' : l < g'.size := h.size ▸ hl
      have hattrs : m'.attrsOf l = m.attrsOf l := by unfold Marks.attrsOf; rw [hm.attrs]
      have hleaks : m'.leaksOf l = m.leaksOf l := by unfold Marks.leaksOf; rw [hm.leaks]
      rw [g.withMarks_loc m hl, g'.withMarks_loc m' hl', hattrs, hleaks]
      exact congrArg (fun x : Location => { x with attrs := m.attrsOf l, leaks := m.leaksOf l })
        (h.loc l)
    · have hl' : g'.size ≤ l := h.size ▸ hl
      rw [(g.withMarks m).loc_of_le l (by rwa [withMarks_size]),
        (g'.withMarks m').loc_of_le l (by rwa [withMarks_size])]

theorem Marks.Alike.escapeAll {g g' : Graph} (h : g.Alike g') {m m' : Marks} (hm : m.Alike m') :
    (m.escapeAll g).Alike (m'.escapeAll g') := by
  constructor
  · unfold Marks.escapeAll
    rw [hm.attrs]
  · unfold Marks.escapeAll
    simp only [hm.leaks, h.isParam]

theorem Graph.Alike.drain {g g' : Graph} (h : g.Alike g') (a : Adder) (p : Program) (n : Nat)
    (record record' : Bool) {m m' : Marks} (hm : m.Alike m') (todo : List LocId) (walks : Nat)
    (relaxed : List Relaxation) :
    (g.drain a p ⟨n, record⟩ m todo walks relaxed).Alike
      (g'.drain a p ⟨n, record'⟩ m' todo walks relaxed) := by
  fun_induction Graph.drain a p g ⟨n, record⟩ m todo walks relaxed generalizing m' with
  | case1 =>
    rw [Graph.drain]
    exact ⟨h.withMarks hm, rfl, rfl⟩
  | case2 m walks relaxed root rest hlimit =>
    rw [Graph.drain, if_pos hlimit]
    exact ⟨h.withMarks (hm.escapeAll h), rfl, rfl⟩
  | case3 m walks relaxed root rest hlimit ih =>
    have hrun := (Walk.start_alike h root hm rest relaxed).run (p := p) h a record record' root
    rw [Graph.drain, if_neg hlimit, hrun.todo, hrun.relaxed]
    exact ih hrun.marks

theorem Graph.Alike.marks {g g' : Graph} (h : g.Alike g') : g.marks.Alike g'.marks := by
  have harray : ∀ {α : Type} {f : Location → α}, (∀ x, f x.bare = f x) →
      g'.locs.map f = g.locs.map f := by
    intro α f hf
    apply Array.toList_inj.1
    rw [Array.toList_map, Array.toList_map, h.map_eq hf]
  exact ⟨harray fun _ => rfl, harray fun _ => rfl⟩

theorem Graph.Alike.solve {g g' : Graph} (h : g.Alike g') (a : Adder) (p : Program) (n : Nat)
    (record record' : Bool) :
    (g.solveWith a p ⟨n, record⟩).Alike (g'.solveWith a p ⟨n, record'⟩) := by
  unfold Graph.solveWith
  rw [h.size]
  exact h.drain a p n record record' h.marks _ 0 []

/-! ## Building -/

structure BatchGraph.Alike (b b' : BatchGraph) : Prop where
  graph : b.graph.Alike b'.graph
  vars : b'.vars = b.vars
  sites : b'.sites = b.sites

/-- The same hole but for its notes. -/
structure Hole.Alike (k k' : Hole) : Prop where
  dst : k'.dst = k.dst
  derefs : k'.derefs = k.derefs
  addrTaken : k'.addrTaken = k.addrTaken

theorem Hole.Alike.note {k k' : Hole} (h : k.Alike k') (s s' : Scene) (why : String) :
    (Build.note s why k).Alike (Build.note s' why k') := by
  unfold Build.note
  constructor
  · split <;> split <;> exact h.dst
  · split <;> split <;> exact h.derefs
  · split <;> split <;> exact h.addrTaken

theorem BatchGraph.Alike.update {b b' : BatchGraph} (h : b.Alike b') (l : LocId)
    {f f' : Location → Location}
    (hf : ∀ x x' : Location, x'.bare = x.bare → (f' x').bare = (f x).bare) :
    (b.update l f).Alike (b'.update l f') :=
  ⟨h.graph.update l hf, h.vars, h.sites⟩

theorem BatchGraph.Alike.symm {b b' : BatchGraph} (h : b.Alike b') : b'.Alike b :=
  ⟨h.graph.symm, h.vars.symm, h.sites.symm⟩

theorem BatchGraph.Alike.explained_left {b b' : BatchGraph} (h : b.Alike b') (q : Bool)
    (l : LocId) (hops : List Hop) :
    (if q then ({ b with graph := b.graph.explain l hops } : BatchGraph) else b).Alike b' := by
  split
  · exact ⟨h.graph.explain_left l hops, h.vars, h.sites⟩
  · exact h

/-- A flow does the same in both graphs, with or without notes. -/
theorem BatchGraph.Alike.flow {b b' : BatchGraph} (h : b.Alike b') {k k' : Hole}
    (hk : k.Alike k') (notes notes' : Bool) (src : LocId) :
    (b.flow notes k src).Alike (b'.flow notes' k' src) := by
  unfold BatchGraph.flow
  dsimp only
  rw [hk.dst, hk.derefs, hk.addrTaken]
  have hmark : (if k.addrTaken then b.update src fun l => { l with addrTaken := true } else b).Alike
      (if k.addrTaken then b'.update src fun l => { l with addrTaken := true } else b') := by
    split
    · exact h.update src fun x x' hx =>
        congrArg (fun y : Location => { y with addrTaken := true }) hx
    · exact h
  generalize (if k.addrTaken then b.update src fun l => { l with addrTaken := true } else b) = b₁
    at hmark ⊢
  generalize (if k.addrTaken then b'.update src fun l => { l with addrTaken := true }
    else b') = b₁' at hmark ⊢
  cases k.dst with
  | none => exact hmark
  | some dst =>
    dsimp only
    rw [hmark.graph.escapes]
    split
    · exact hmark
    · split
      · refine BatchGraph.Alike.update ?_ src fun x x' hx =>
          congrArg (fun y : Location => { y with attrs := y.attrs.union .all }) hx
        -- a path is kept in one graph and perhaps not in the other
        exact ((hmark.explained_left _ _ _).symm.explained_left _ _ _).symm
      · refine hmark.update dst fun x x' hx => ?_
        have hedges : x'.edges.map Edge.bare = x.edges.map Edge.bare :=
          congrArg Location.edges hx
        unfold Location.bare at hx ⊢
        dsimp only
        rw [List.map_append, List.map_append, hedges]
        exact congrArg (fun y : Location =>
          { y with edges := x.edges.map Edge.bare ++ [(⟨src, k.derefs, []⟩ : Edge)] }) hx

/-- Builds that differ in whether notes are taken. -/
def notedBuild : Coupling where
  loose := False
  Callee := fun _ => True
  Inside := fun _ => True
  State := fun τ b b' => b.Alike b' ∧ ∃ D, Placed (fun _ => True) D τ b
  Holes := Hole.Alike

theorem lockstep_notedBuild (s : Scene) (notes : Bool) :
    Lockstep notedBuild s { s with notes := notes } where
  program := .refl _
  members := rfl
  reassigned := rfl
  addrTaken := rfl
  summary? := fun _ _ _ => rfl
  vars := fun h => h.1.vars
  sites := fun h => h.1.sites
  size := fun h => h.1.graph.size
  three_le := fun ⟨_, _, h⟩ => h.three_le
  placed := fun ⟨_, _, h⟩ hv => h.vars _ _ hv
  discard := ⟨rfl, rfl, rfl⟩
  ofLoc := fun _ => ⟨rfl, rfl, rfl⟩
  note := fun why h => h.note _ _ why
  derefs := fun h => h.derefs
  shift := fun _ _ h => ⟨h.dst, rfl, rfl⟩
  flow := fun ⟨h, D, hp⟩ hk _ _ => ⟨h.flow hk _ _ _, D, hp.flow _ _ _⟩
  temp := fun pl persists ⟨h, D, hp⟩ => ⟨⟨h.graph.push rfl, h.vars, h.sites⟩, D,
    hp.push (by cases persists <;> rfl) (fun _ _ => trivial) (.inl rfl)⟩
  site := fun pl ⟨h, D, hp⟩ hi => ⟨⟨h.graph.push rfl, h.vars, by
    simp only [pushSite, h.sites, h.graph.size]⟩, D, hp.pushSite trivial hi⟩
  global := fun {_ b b' v _} ⟨h, D, hp⟩ _ _ _ => ⟨⟨h.graph.push rfl, by
    simp only [pushGlobal, pushVar, h.vars, h.graph.size], h.sites⟩, D,
    hp.push rfl (fun _ _ => trivial) (.inr ⟨v, rfl⟩)⟩
  captured := fun l ⟨h, D, hp⟩ => ⟨h.update l fun _ _ hx =>
    congrArg (fun y : Location => { y with captured := true }) hx, D, hp.update l fun _ => rfl⟩
  depth := fun l d ⟨h, D, hp⟩ => ⟨h.update l fun _ _ hx =>
    congrArg (fun y : Location => { y with loopDepth := d }) hx, D, hp.update l fun _ => rfl⟩
  precise := fun h => h
  loosened := fun h h' => absurd h (Bool.eq_false_iff.1 h')
  argument := fun h h' => absurd h (Bool.eq_false_iff.1 h')
  result := fun h h' => absurd h (Bool.eq_false_iff.1 h')

theorem build_alike (p : Program) (fs : List FuncId) (summary? : FuncId → Option Summary)
    (precise notes notes' : Bool) :
    Outcome False BatchGraph.Alike (build p fs summary? ⟨precise, notes⟩)
      (build p fs summary? ⟨precise, notes'⟩) := by
  rw [build_eq, build_eq]
  refine (declarations_outcome (.refl p) fs).bind ?_
  rintro _ ds ⟨rfl, -⟩
  let s := scene p fs summary? ⟨precise, notes⟩ ds
  have hoffers : s.program.Offers False ({ s with notes := notes' } : Scene).program := .refl p
  refine (Declared.empty.run_places hoffers (ds.flatMap (Build.declEntries s))).bind ?_
  rintro _ ⟨⟨⟩, b⟩ ⟨rfl, hb⟩
  have hplaced := hb.placed (F := fun _ => True) (declEntries_decided? s ds) fun _ _ _ _ => trivial
  have hself : b.Alike b := ⟨⟨rfl, fun _ => rfl⟩, rfl, rfl⟩
  refine ((lockstep_notedBuild s notes').bodies_steps ds (fun _ _ => trivial)
    (fun _ _ _ _ _ _ => trivial) 0 b b ⟨hself, _, hplaced⟩ (Nat.zero_le _)).bind ?_
  rintro ⟨⟨⟩, b₁⟩ ⟨⟨⟩, b₁'⟩ ⟨⟨h, -⟩, -⟩
  exact .ok h

/-! ## Reports -/

/-- Two computations both fail, with errors that `E` relates, or both give values, which `Q`
relates. -/
inductive SameEnd {α β : Type} (E : Error → Error → Prop) (Q : α → β → Prop) :
    Except Error α → Except Error β → Prop
  | ok {a : α} {b : β} : Q a b → SameEnd E Q (.ok a) (.ok b)
  | error {e e' : Error} : E e e' → SameEnd E Q (.error e) (.error e')

namespace SameEnd

variable {α β γ δ : Type} {E : Error → Error → Prop} {Q : α → β → Prop} {R : γ → δ → Prop}

theorem of_outcome {x : Except Error α} {y : Except Error β} (h : Outcome False Q x y) :
    SameEnd Eq Q x y := by
  cases x with
  | ok a =>
    cases y with
    | ok b => exact .ok h
    | error e => exact h.elim
  | error e =>
    cases y with
    | ok b => exact h.elim
    | error e' =>
      obtain ⟨rfl, -⟩ := h.resolve_left id
      exact .error rfl

theorem imp {E' : Error → Error → Prop} {x : Except Error α} {y : Except Error β}
    (h : SameEnd E Q x y) (hE : ∀ e e', E e e' → E' e e') : SameEnd E' Q x y := by
  cases h with
  | ok hab => exact .ok hab
  | error he => exact .error (hE _ _ he)

theorem bind {x : Except Error α} {y : Except Error β} {f : α → Except Error γ}
    {g : β → Except Error δ} (h : SameEnd E Q x y)
    (hf : ∀ a b, Q a b → SameEnd E R (f a) (g b)) : SameEnd E R (x >>= f) (y >>= g) := by
  cases h with
  | ok hab => exact hf _ _ hab
  | error he => exact .error he

theorem mapM {ι : Type} {f : ι → Except Error α} {g : ι → Except Error β} (xs : List ι)
    (h : ∀ i ∈ xs, SameEnd E Q (f i) (g i)) :
    SameEnd E (List.Forall₂ Q) (xs.mapM f) (xs.mapM g) := by
  induction xs with
  | nil => exact .ok .nil
  | cons i xs ih =>
    rw [List.mapM_cons, List.mapM_cons]
    refine (h i List.mem_cons_self).bind fun a b hab => ?_
    refine (ih fun j hj => h j (List.mem_cons_of_mem _ hj)).bind fun as bs habs => ?_
    exact .ok (.cons hab habs)

theorem foldlM {ι κ : Type} {P : ι → κ → Prop} {f : α → ι → Except Error α}
    {g : β → κ → Except Error β} {xs : List ι} {ys : List κ} (hxs : List.Forall₂ P xs ys)
    (hf : ∀ a b i j, Q a b → P i j → SameEnd E Q (f a i) (g b j)) {a : α} {b : β} (hab : Q a b) :
    SameEnd E Q (xs.foldlM f a) (ys.foldlM g b) := by
  induction hxs generalizing a b with
  | nil => exact .ok hab
  | cons hij _ ih =>
    rw [List.foldlM_cons, List.foldlM_cons]
    exact (hf _ _ _ _ hab hij).bind fun a b hab => ih hab

theorem exists_ok_right {x : Except Error α} {y : Except Error β} (h : SameEnd E Q x y) {a : α}
    (hx : x = .ok a) : ∃ b, y = .ok b ∧ Q a b := by
  cases h with
  | ok hab =>
    cases hx
    exact ⟨_, rfl, hab⟩
  | error he => cases hx

theorem exists_ok_left {x : Except Error α} {y : Except Error β} (h : SameEnd E Q x y) {b : β}
    (hy : y = .ok b) : ∃ a, x = .ok a ∧ Q a b := by
  cases h with
  | ok hab =>
    cases hy
    exact ⟨_, rfl, hab⟩
  | error he => cases hy

theorem eq_error {x : Except Error α} {y : Except Error β} (h : SameEnd Eq Q x y) {e : Error}
    (hy : y = .error e) : x = .error e := by
  cases h with
  | ok hab => cases hy
  | error he => rw [he, Except.error.inj hy]

section Jobs

variable {ι : Type} {job : ι → Traced α} {job' : ι → Traced β} {xs : List ι}
  (h : ∀ i ∈ xs, SameEnd Eq Q (job i).result (job' i).result)

include h

theorem inParallel_sameTimes (finish : Nat → Nat) :
    SameEnd Eq (fun _ _ => True) (Traced.inParallel finish job xs).result
      (Traced.inParallel finish job' xs).result := by
  rw [Traced.result_inParallel, Traced.result_inParallel]
  have hdone : SameEnd Eq (List.Forall₂ fun _ _ => True)
      ((byFinish finish xs).mapM fun x => (job x.1).result >>= fun y => .ok (x.2, y))
      ((byFinish finish xs).mapM fun x => (job' x.1).result >>= fun y => .ok (x.2, y)) :=
    mapM _ fun x hx => (h x.1 (fst_mem_of_mem_byFinish hx)).bind fun _ _ _ => .ok trivial
  exact hdone.bind fun _ _ _ => .ok trivial

/-- Jobs that are shared out both ways all succeed or not.  The errors are those of some of them,
and the same if the jobs are done at the same times. -/
theorem inParallel (finish finish' : Nat → Nat) :
    SameEnd
      (fun e e' => (finish' = finish → e = e') ∧
        ∃ i ∈ xs, ∃ j ∈ xs, (job i).result = .error e ∧ (job j).result = .error e')
      (List.Forall₂ Q) (Traced.inParallel finish job xs).result
      (Traced.inParallel finish' job' xs).result := by
  have hturn : SameEnd Eq (List.Forall₂ Q) (xs.mapM job).result (xs.mapM job').result := by
    rw [Traced.result_mapM, Traced.result_mapM]
    exact mapM xs h
  cases hx : (Traced.inParallel finish job xs).result with
  | ok ys =>
    obtain ⟨zs, hzs, hQ⟩ := hturn.exists_ok_right (Traced.result_inParallel_eq_ok.1 hx)
    rw [Traced.result_inParallel_of_mapM hzs]
    exact .ok hQ
  | error e =>
    cases hy : (Traced.inParallel finish' job' xs).result with
    | ok zs =>
      obtain ⟨ys, hys, -⟩ := hturn.exists_ok_left (Traced.result_inParallel_eq_ok.1 hy)
      rw [Traced.result_inParallel_of_mapM hys] at hx
      cases hx
    | error e' =>
      obtain ⟨i, hi, hjob⟩ := Traced.exists_of_result_inParallel_eq_error hx
      obtain ⟨j, hj, hjob'⟩ := Traced.exists_of_result_inParallel_eq_error hy
      refine .error ⟨?_, i, hi, j, hj, hjob, (h j hj).eq_error hjob'⟩
      rintro rfl
      have hsame := (inParallel_sameTimes h finish').eq_error hy
      rw [hx] at hsame
      exact Except.error.inj hsame

end Jobs

end SameEnd

/-- The same output but for the diagnostics. -/
structure BatchOutput.Alike (x y : BatchOutput) : Prop where
  decisions : y.decisions = x.decisions
  summaries : y.summaries = x.summaries
  stats : y.stats = x.stats

/-- The same report but for the diagnostics. -/
structure Report.Alike (r r' : Report) : Prop where
  decisions : r'.decisions = r.decisions
  summaries : r'.summaries = r.summaries
  stats : r'.stats = r.stats

theorem BatchGraph.Alike.decisions {b b' : BatchGraph} (h : b.Alike b') :
    b'.decisions = b.decisions := by
  have hmap := h.graph.map_eq (f := fun l => l.decided?.map l.decision) fun _ => rfl
  have hid : ∀ xs : List Location, (xs.filterMap fun l => l.decided?.map l.decision) =
      (xs.map fun l => l.decided?.map l.decision).filterMap id := by
    intro xs
    rw [List.filterMap_map]
    rfl
  unfold BatchGraph.decisions
  rw [hid, hid, hmap]

theorem BatchGraph.Alike.summarize {b b' : BatchGraph} (h : b.Alike b') :
    b'.summarize = b.summarize := by
  funext decl
  have hleaks : ∀ l, (b'.graph.loc l).leaks = (b.graph.loc l).leaks := h.graph.view fun _ => rfl
  have hparam : b'.paramLeaks decl = b.paramLeaks decl := by
    funext v
    unfold paramLeaks varLoc?
    rw [h.vars]
    simp only [hleaks]
  unfold BatchGraph.summarize
  rw [hparam]

theorem total_eq_total_map {α : Type} (f : α → Nat) (xs : List α) :
    total f xs = total id (xs.map f) := by
  induction xs with
  | nil => rfl
  | cons x xs ih =>
    rw [List.map_cons, total, total, ih]
    rfl

theorem Graph.Alike.edgeCount {g g' : Graph} (h : g.Alike g') : g'.edgeCount = g.edgeCount := by
  unfold Graph.edgeCount
  rw [total_eq_total_map, total_eq_total_map _ g.locs.toList]
  refine congrArg (total id) (h.map_eq fun x => ?_)
  exact List.length_map _

namespace Analysis

/-- Both errors are the same, and they are if batches are done at the same times; or they are those
of two batches of a wave that is shared out. -/
structure SameFailure (m m' : Machine) (c : Config) (p : Program) (e e' : Error) : Prop where
  sameTimes : m'.finish = m.finish → e = e'
  sharedOut : e = e' ∨ ∃ w ∈ (Plan.ofProgram p).waves, c.sharesOut w.length = true ∧
    ∃ summary?, ∃ b ∈ w, ∃ b' ∈ w, BatchRun.analyze c p b summary? m.adder = .error e ∧
      BatchRun.analyze c p b' summary? m.adder = .error e'

theorem SameFailure.of_eq {m m' : Machine} {c : Config} {p : Program} {e e' : Error}
    (h : e = e') : SameFailure m m' c p e e' :=
  ⟨fun _ => h, .inl h⟩

end Analysis

section Levels

variable {c c' : Config} (hc : c' = { c with diagnosticLevel := c'.diagnosticLevel })

include hc

theorem BatchRun.output_alike (a : Adder) (p : Program) (batch : Batch) {b b' : BatchGraph}
    (h : b.Alike b') :
    (ofBuilt a c p batch b).output.Alike (ofBuilt a c' p batch b').output := by
  have hrounds : c'.maxWalkRounds = c.maxWalkRounds := by rw [hc]
  have hsolve := h.graph.solve a p c.maxWalkRounds (2 ≤ c.diagnosticLevel) (2 ≤ c'.diagnosticLevel)
  have hsolved :
      (solved b (b.graph.solveWith a p ⟨c.maxWalkRounds, 2 ≤ c.diagnosticLevel⟩)).Alike
        (solved b' (b'.graph.solveWith a p ⟨c'.maxWalkRounds, 2 ≤ c'.diagnosticLevel⟩)) := by
    rw [hrounds]
    exact ⟨hsolve.graph, h.vars, h.sites⟩
  unfold ofBuilt
  refine ⟨hsolved.decisions, ?_, ?_⟩
  · exact congrArg (List.map · (batch.functions.filterMap p.function?)) hsolved.summarize
  · unfold BatchGraph.output Solution.limitHit
    dsimp only
    rw [hsolved.decisions, hsolved.graph.size, hsolved.graph.edgeCount, hrounds, hsolve.walks,
      hsolve.pending]

theorem BatchRun.analyze_alike (a : Adder) (p : Program) (batch : Batch)
    (summary? : FuncId → Option Summary) :
    SameEnd Eq (fun x y => x.output.Alike y.output) (analyze c p batch summary? a)
      (analyze c' p batch summary? a) := by
  have hprecise : c'.preciseRecursiveCalls = c.preciseRecursiveCalls := by rw [hc]
  rw [analyze_eq, analyze_eq, hprecise]
  have hbuild := SameEnd.of_outcome (build_alike p batch.functions summary?
    c.preciseRecursiveCalls (2 ≤ c.diagnosticLevel) (2 ≤ c'.diagnosticLevel))
  generalize build p batch.functions summary? ⟨c.preciseRecursiveCalls, _⟩ = x at hbuild ⊢
  generalize build p batch.functions summary? ⟨c.preciseRecursiveCalls, _⟩ = y at hbuild ⊢
  cases hbuild with
  | ok h => exact .ok (output_alike hc a p batch h)
  | error he => exact .error he

omit hc in
theorem Report.Alike.merge {r r' : Report} (h : r.Alike r') {x y : BatchOutput}
    (hxy : x.Alike y) : SameEnd Eq Report.Alike (r.merge x) (r'.merge y) := by
  unfold Report.merge
  dsimp only
  rw [Report.foldl_put, Report.foldl_put, h.summaries, hxy.summaries]
  cases r.summaries.insertAll x.summaries with
  | error e => exact .error rfl
  | ok s =>
    refine .ok ⟨?_, rfl, ?_⟩
    · exact congrArg₂ Report.insertAll hxy.decisions h.decisions
    · exact congrArg₂ Stats.merge h.stats hxy.stats

namespace Analysis

variable {m m' : Machine} (hm : m'.adder = m.adder) (p : Program)

include hm

theorem outputs_alike {r r' : Report} (h : r.Alike r') {w : Nat × List Batch}
    (hw : w.2 ∈ (Plan.ofProgram p).waves) :
    SameEnd (SameFailure m m' c p) (List.Forall₂ BatchOutput.Alike)
      (outputs m c p r w).result (outputs m' c' p r' w).result := by
  have hsummary : r'.summary? = r.summary? := by
    funext f
    unfold Report.summary?
    rw [h.summaries]
  have hshares : c'.sharesOut = c.sharesOut := by
    rw [hc]
    rfl
  have hjob : ∀ b ∈ w.2, SameEnd Eq BatchOutput.Alike (runBatch m c p r.summary? b).result
      (runBatch m' c' p r.summary? b).result := by
    intro b _
    rw [result_runBatch, result_runBatch, hm]
    exact (BatchRun.analyze_alike hc m.adder p b r.summary?).bind fun x y hxy => .ok hxy
  have hanalyze : ∀ {b e}, (runBatch m c p r.summary? b).result = .error e →
      BatchRun.analyze c p b r.summary? m.adder = .error e := by
    intro b e h
    rw [result_runBatch] at h
    rcases bind_eq_error.1 h with h | ⟨_, -, h⟩
    · exact h
    · cases h
  unfold outputs
  rw [hsummary, hshares]
  split
  · next hshared =>
    refine (SameEnd.inParallel hjob (m.finish w.1) (m'.finish w.1)).imp ?_
    rintro e e' ⟨htimes, b, hb, b', hb', he, he'⟩
    refine ⟨fun hfinish => htimes (by rw [hfinish]), .inr ⟨w.2, hw, hshared, r.summary?, ?_⟩⟩
    exact ⟨b, hb, b', hb', hanalyze he, hanalyze he'⟩
  · rw [Traced.result_mapM, Traced.result_mapM]
    exact (SameEnd.mapM w.2 hjob).imp fun _ _ => .of_eq

theorem runWave_alike {r r' : Report} (h : r.Alike r') {w : Nat × List Batch}
    (hw : w.2 ∈ (Plan.ofProgram p).waves) :
    SameEnd (SameFailure m m' c p) Report.Alike (runWave m c p r w).result
      (runWave m' c' p r' w).result := by
  rw [result_runWave, result_runWave]
  refine (outputs_alike hc hm p h hw).bind fun outs outs' houts => ?_
  exact SameEnd.foldlM houts
    (fun _ _ _ _ hr hxy => (hr.merge hxy).imp fun _ _ => .of_eq) h

theorem runProgram_alike :
    SameEnd (SameFailure m m' c p) Report.Alike (runProgram m c p).result
      (runProgram m' c' p).result := by
  rw [result_runProgram, result_runProgram, Traced.result_foldlM, Traced.result_foldlM]
  have hmem : ∀ w ∈ numberedWaves p, w.2 ∈ (Plan.ofProgram p).waves := by
    intro w hw
    rw [← map_snd_numberedWaves]
    exact List.mem_map_of_mem hw
  have hwaves : List.Forall₂ (fun w w' => w' = w ∧ w.2 ∈ (Plan.ofProgram p).waves)
      (numberedWaves p) (numberedWaves p) :=
    List.forall₂_same.2 fun w hw => ⟨rfl, hmem w hw⟩
  have hempty : Report.Alike {} {} := ⟨rfl, rfl, rfl⟩
  refine (SameEnd.foldlM hwaves ?_ hempty).bind fun r r' h => .ok ⟨?_, ?_, ?_⟩
  · rintro r r' w _ h ⟨rfl, hw⟩
    exact runWave_alike hc hm p h hw
  · simp only [finish, Report.decideGlobals_eq, h.decisions]
  · simp only [finish, Report.decideGlobals_eq, h.summaries]
  · simp only [finish, Report.decideGlobals_eq, h.stats]

end Analysis

end Levels

end EscapeFlow
