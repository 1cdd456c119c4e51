import EscapeFlow.Proofs.Recasting
import EscapeFlow.Proofs.Statements
import EscapeFlow.Total

/-!
# Loops around a statement

The depth of a location is read off the body that it comes from.  `occurrences body` lists the
statements of a body in the order in which they are gone through, each with the lists it is in, and
`Occurrence.depth` counts the loops around one of them: the loop statements, and the looping labels
that stand earlier in one of the lists.  A label loops if a jump back to it follows (`JumpsBack`).
In a graph that was built,

    an allocation has the depth of the statement it stands in, and
    a variable that of the last statement that declares it                   (build_loopDepth)

Going through statements keeps `Stocked`: the allocations gone through so far have their
locations, at the depths of their statements (`stocked_stmts`).
-/

namespace EscapeFlow

open BatchGraph Build

/-! ## Looping labels -/

/-- Some jump to the label comes after the label. -/
def JumpsBack (xs : List Stmt) (l : LabelId) : Prop :=
  ∃ ys zs, xs = ys ++ .label l :: zs ∧ .goto l ∈ zs

theorem jumpsBack_cons {x : Stmt} {xs : List Stmt} {l : LabelId} :
    JumpsBack (x :: xs) l ↔ (x = .label l ∧ .goto l ∈ xs) ∨ JumpsBack xs l := by
  constructor
  · rintro ⟨ys, zs, heq, hmem⟩
    cases ys with
    | nil =>
      obtain ⟨rfl, rfl⟩ := List.cons.inj heq
      exact .inl ⟨rfl, hmem⟩
    | cons y ys => exact .inr ⟨ys, zs, (List.cons.inj heq).2, hmem⟩
  · rintro (⟨rfl, hmem⟩ | ⟨ys, zs, rfl, hmem⟩)
    · exact ⟨[], xs, rfl, hmem⟩
    · exact ⟨x :: ys, zs, rfl, hmem⟩

/-- The labels in `seen` have been passed before. -/
theorem mem_loopingLabels_go {seen : List LabelId} {xs : List Stmt} {l : LabelId} :
    l ∈ loopingLabels.go seen xs ↔ (l ∈ seen ∧ .goto l ∈ xs) ∨ JumpsBack xs l := by
  induction xs generalizing seen with
  | nil =>
    rw [loopingLabels.go]
    constructor
    · intro h
      cases h
    · rintro (⟨-, hmem⟩ | ⟨ys, zs, heq, -⟩)
      · cases hmem
      · exact absurd heq.symm (by simp)
  | cons x xs ih =>
    rw [jumpsBack_cons]
    cases x with
    | label m =>
      rw [loopingLabels.go, ih, List.mem_cons]
      grind
    | goto m =>
      rw [loopingLabels.go]
      split <;> grind
    | _ =>
      rw [loopingLabels.go]
      · grind
      · intro m h
        cases h
      · intro m h
        cases h

theorem mem_loopingLabels_iff {body : List Stmt} {l : LabelId} :
    l ∈ loopingLabels body ↔ JumpsBack (bodyStmts body) l := by
  unfold loopingLabels
  rw [mem_loopingLabels_go]
  exact or_iff_right fun h => List.not_mem_nil h.1

instance (body : List Stmt) (l : LabelId) : Decidable (JumpsBack (bodyStmts body) l) :=
  decidable_of_iff _ mem_loopingLabels_iff

/-! ## Statements with the lists they are in -/

/-- One of the lists around a statement: its statement `holder`, which is or holds that statement,
and the statements that stand before it. -/
structure Layer where
  before : List Stmt
  holder : Stmt

/-- A statement of a body, with the lists around it, the innermost first. -/
structure Occurrence where
  stmt : Stmt
  layers : List Layer

mutual

/-- The statements inside a statement that the given layers lead to. -/
def Stmt.within (layers : List Layer) : Stmt → List Occurrence
  | .ifElse _ t e => Stmt.withinList layers [] t ++ Stmt.withinList layers [] e
  | .loop _ body => Stmt.withinList layers [] body
  | .block body => Stmt.withinList layers [] body
  | .decl _ _ | .assign _ _ | .expr _ | .ret _ | .label _ | .goto _ | .go _ | .defer _ => []

/-- The statements of the rest of a list, and those inside them. -/
def Stmt.withinList (outer : List Layer) (before : List Stmt) : List Stmt → List Occurrence
  | [] => []
  | x :: xs =>
    ⟨x, ⟨before, x⟩ :: outer⟩ :: (Stmt.within (⟨before, x⟩ :: outer) x ++
      Stmt.withinList outer (before ++ [x]) xs)

end

def occurrences (body : List Stmt) : List Occurrence := Stmt.withinList [] [] body

def Stmt.isLoop : Stmt → Bool
  | .loop _ _ => true
  | _ => false

/-- A label of the body that some later statement jumps back to. -/
def Stmt.isLoopingLabel (body : List Stmt) : Stmt → Bool
  | .label l => decide (JumpsBack (bodyStmts body) l)
  | _ => false

/-- The number of loops around the expressions of a statement.  The statement itself counts if it is
a loop, since its condition is evaluated in every round. -/
def loopsAround (body : List Stmt) (layers : List Layer) : Nat :=
  layers.countP (·.holder.isLoop) +
    total (fun layer => layer.before.countP (Stmt.isLoopingLabel body)) layers

namespace Occurrence

def depth (body : List Stmt) (x : Occurrence) : Nat := loopsAround body x.layers

/-- The variable that a statement declares, with the depth of the statement. -/
def declares? (body : List Stmt) (x : Occurrence) : Option (VarId × Nat) :=
  x.stmt.declared?.map (·, x.depth body)

/-- The allocations in the expressions of a statement, with the depth of the statement. -/
def allocs (body : List Stmt) (x : Occurrence) : List (SiteId × Nat) :=
  ((Expr.nodesOfList x.stmt.exprs).filterMap Expr.allocSite?).map (·, x.depth body)

end Occurrence

mutual

theorem Stmt.within_stmts : ∀ (x : Stmt) (layers : List Layer),
    x :: (x.within layers).map Occurrence.stmt = x.inner
  | .ifElse cond t e, layers => by
    rw [Stmt.within, inner_ifElse, List.map_append, Stmt.withinList_stmts t layers [],
      Stmt.withinList_stmts e layers []]
  | .loop cond body, layers => by
    rw [Stmt.within, inner_loop, Stmt.withinList_stmts body layers []]
  | .block body, layers => by
    rw [Stmt.within, inner_block, Stmt.withinList_stmts body layers []]
  | .decl v init, layers => by
    rw [Stmt.within, inner_of_nodes (by rw [Stmt.nodes]), List.map_nil]
  | .assign lhs rhs, layers => by
    rw [Stmt.within, inner_of_nodes (by rw [Stmt.nodes]), List.map_nil]
  | .expr e, layers => by
    rw [Stmt.within, inner_of_nodes (by rw [Stmt.nodes]), List.map_nil]
  | .ret values, layers => by
    rw [Stmt.within, inner_of_nodes (by rw [Stmt.nodes]), List.map_nil]
  | .label l, layers => by
    rw [Stmt.within, inner_of_nodes (by rw [Stmt.nodes]; rfl), List.map_nil]
  | .goto l, layers => by
    rw [Stmt.within, inner_of_nodes (by rw [Stmt.nodes]; rfl), List.map_nil]
  | .go e, layers => by
    rw [Stmt.within, inner_of_nodes (by rw [Stmt.nodes]), List.map_nil]
  | .defer e, layers => by
    rw [Stmt.within, inner_of_nodes (by rw [Stmt.nodes]), List.map_nil]

theorem Stmt.withinList_stmts : ∀ (xs : List Stmt) (outer : List Layer) (before : List Stmt),
    (Stmt.withinList outer before xs).map Occurrence.stmt = bodyStmts xs
  | [], outer, before => by
    rw [Stmt.withinList]
    rfl
  | x :: xs, outer, before => by
    rw [Stmt.withinList, List.map_cons, List.map_append, Stmt.withinList_stmts xs outer _,
      bodyStmts_cons, ← Stmt.within_stmts x (⟨before, x⟩ :: outer)]
    rfl

end

/-- Every statement of a body occurs, in the order of the body. -/
theorem occurrences_stmts (body : List Stmt) :
    (occurrences body).map Occurrence.stmt = bodyStmts body :=
  Stmt.withinList_stmts body [] []

mutual

theorem Stmt.parts_eq_flatMap : ∀ x : Stmt,
    x.parts = x.inner.flatMap fun y => Expr.nodesOfList y.exprs
  | .ifElse cond t e => by
    rw [parts_ifElse, inner_ifElse, List.flatMap_cons, List.flatMap_append, exprs,
      Expr.nodesOfList_singleton, bodyExprs_eq_stmts t, bodyExprs_eq_stmts e]
  | .loop cond body => by
    rw [parts_loop, inner_loop, List.flatMap_cons, exprs, bodyExprs_eq_stmts body]
  | .block body => by
    rw [parts_block, inner_block, List.flatMap_cons, exprs, Expr.nodesOfList, List.nil_append,
      bodyExprs_eq_stmts body]
  | .decl v init => by
    rw [parts_of_nodes (by rw [nodes]), inner_of_nodes (by rw [nodes]), List.flatMap_singleton]
  | .assign lhs rhs => by
    rw [parts_of_nodes (by rw [nodes]), inner_of_nodes (by rw [nodes]), List.flatMap_singleton]
  | .expr e => by
    rw [parts_of_nodes (by rw [nodes]), inner_of_nodes (by rw [nodes]), List.flatMap_singleton]
  | .ret values => by
    rw [parts_of_nodes (by rw [nodes]), inner_of_nodes (by rw [nodes]), List.flatMap_singleton]
  | .label l => by
    rw [parts_of_nodes (by rw [nodes]; rfl), inner_of_nodes (by rw [nodes]; rfl),
      List.flatMap_singleton]
  | .goto l => by
    rw [parts_of_nodes (by rw [nodes]; rfl), inner_of_nodes (by rw [nodes]; rfl),
      List.flatMap_singleton]
  | .go e => by
    rw [parts_of_nodes (by rw [nodes]), inner_of_nodes (by rw [nodes]), List.flatMap_singleton]
  | .defer e => by
    rw [parts_of_nodes (by rw [nodes]), inner_of_nodes (by rw [nodes]), List.flatMap_singleton]

theorem Stmt.bodyExprs_eq_stmts : ∀ xs : List Stmt,
    bodyExprs xs = (bodyStmts xs).flatMap fun y => Expr.nodesOfList y.exprs
  | [] => rfl
  | x :: xs => by
    rw [bodyExprs_cons, bodyStmts_cons, List.flatMap_append, Stmt.parts_eq_flatMap x,
      Stmt.bodyExprs_eq_stmts xs]

end

/-- Every expression of a body stands in one of the statements that occur. -/
theorem bodyExprs_eq_occurrences (body : List Stmt) :
    bodyExprs body = (occurrences body).flatMap fun x => Expr.nodesOfList x.stmt.exprs := by
  rw [Stmt.bodyExprs_eq_stmts, ← occurrences_stmts, List.flatMap_map]

/-! ## The depth that is counted on the way -/

theorem loopsAround_cons (body : List Stmt) (layer : Layer) (layers : List Layer) :
    loopsAround body (layer :: layers) = loopsAround body layers +
      layer.before.countP (Stmt.isLoopingLabel body) + layer.holder.isLoop.toNat := by
  unfold loopsAround
  rw [List.countP_cons, total]
  cases layer.holder.isLoop <;> simp <;> omega

theorem depthAfter_eq (body : List Stmt) (d : Nat) (x : Stmt) :
    depthAfter (loopingLabels body) d x = d + (x.isLoopingLabel body).toNat := by
  cases x with
  | label l =>
    show (if l ∈ loopingLabels body then d + 1 else d) = d + (decide (JumpsBack _ l)).toNat
    by_cases h : JumpsBack (bodyStmts body) l
    · rw [if_pos (mem_loopingLabels_iff.2 h), decide_eq_true h]
      rfl
    · rw [if_neg (h ∘ mem_loopingLabels_iff.1), decide_eq_false h]
      rfl
  | _ => rfl

/-- The depth at which a list is gone on with after `before`. -/
def depthAt (body : List Stmt) (outer : List Layer) (before : List Stmt) : Nat :=
  loopsAround body outer + before.countP (Stmt.isLoopingLabel body)

theorem depthAt_concat (body : List Stmt) (outer : List Layer) (before : List Stmt) (x : Stmt) :
    depthAt body outer (before ++ [x]) =
      depthAfter (loopingLabels body) (depthAt body outer before) x := by
  unfold depthAt
  rw [depthAfter_eq, List.countP_append, List.countP_singleton, Nat.add_assoc]
  cases x.isLoopingLabel body <;> rfl

theorem loopsAround_layer (body : List Stmt) (outer : List Layer) (before : List Stmt) (x : Stmt) :
    loopsAround body (⟨before, x⟩ :: outer) = depthAt body outer before + x.isLoop.toNat :=
  loopsAround_cons body ⟨before, x⟩ outer

/-! ## Declarations -/

mutual

theorem Stmt.declDepths_within (body : List Stmt) : ∀ (x : Stmt) (layers : List Layer) (d : Nat),
    loopsAround body layers = d + x.isLoop.toNat →
    x.declDepths (loopingLabels body) d =
      ((⟨x, layers⟩ : Occurrence) :: x.within layers).filterMap (Occurrence.declares? body)
  | .decl v init, layers, d, hd => by
    rw [Stmt.declDepths, Stmt.within]
    exact congrArg (fun n => [(v, n)]) hd.symm
  | .ifElse cond t e, layers, d, hd => by
    rw [Stmt.declDepths, Stmt.within, List.filterMap_cons_none rfl, List.filterMap_append,
      Stmt.declDepths_withinList body t layers [] d hd.symm,
      Stmt.declDepths_withinList body e layers [] d hd.symm]
  | .loop cond xs, layers, d, hd => by
    rw [Stmt.declDepths, Stmt.within, List.filterMap_cons_none rfl,
      Stmt.declDepths_withinList body xs layers [] (d + 1) hd.symm]
  | .block xs, layers, d, hd => by
    rw [Stmt.declDepths, Stmt.within, List.filterMap_cons_none rfl,
      Stmt.declDepths_withinList body xs layers [] d hd.symm]
  | .assign _ _, layers, d, _ => by
    rw [Stmt.declDepths, Stmt.within, List.filterMap_cons_none rfl, List.filterMap_nil]
  | .expr _, layers, d, _ => by
    rw [Stmt.declDepths, Stmt.within, List.filterMap_cons_none rfl, List.filterMap_nil]
  | .ret _, layers, d, _ => by
    rw [Stmt.declDepths, Stmt.within, List.filterMap_cons_none rfl, List.filterMap_nil]
  | .label _, layers, d, _ => by
    rw [Stmt.declDepths, Stmt.within, List.filterMap_cons_none rfl, List.filterMap_nil]
  | .goto _, layers, d, _ => by
    rw [Stmt.declDepths, Stmt.within, List.filterMap_cons_none rfl, List.filterMap_nil]
  | .go _, layers, d, _ => by
    rw [Stmt.declDepths, Stmt.within, List.filterMap_cons_none rfl, List.filterMap_nil]
  | .defer _, layers, d, _ => by
    rw [Stmt.declDepths, Stmt.within, List.filterMap_cons_none rfl, List.filterMap_nil]

theorem Stmt.declDepths_withinList (body : List Stmt) :
    ∀ (xs : List Stmt) (outer : List Layer) (before : List Stmt) (d : Nat),
    d = depthAt body outer before →
    Stmt.declDepthsOfList (loopingLabels body) d xs =
      (Stmt.withinList outer before xs).filterMap (Occurrence.declares? body)
  | [], outer, before, d, _ => by
    rw [Stmt.declDepthsOfList, Stmt.withinList, List.filterMap_nil]
  | x :: xs, outer, before, _, rfl => by
    rw [Stmt.declDepthsOfList, Stmt.withinList, ← List.cons_append, List.filterMap_append,
      Stmt.declDepths_within body x _ _ (loopsAround_layer body outer before x),
      Stmt.declDepths_withinList body xs outer (before ++ [x]) _
        (depthAt_concat body outer before x).symm]

end

theorem Function.declDepths_eq (f : Function) :
    f.declDepths = (occurrences f.stmts).filterMap (Occurrence.declares? f.stmts) :=
  Stmt.declDepths_withinList f.stmts f.stmts [] [] 0 rfl

/-- The depths of the declarations of a variable in the bodies of a batch. -/
def Program.depthsOf (p : Program) (fs : List FuncId) (v : VarId) : List Nat :=
  (fs.filterMap p.function?).flatMap fun f =>
    ((occurrences f.stmts).filter fun x => x.stmt.declared? = some v).map
      (Occurrence.depth f.stmts)

theorem depthOf_eq_getLast? (es : List (VarId × Nat)) (v : VarId) (d : Nat) :
    depthOf es v d = ((es.filter (·.1 = v)).map Prod.snd).getLast?.getD d := by
  induction es generalizing d with
  | nil => rfl
  | cons e es ih =>
    show depthOf es v (if e.1 = v then e.2 else d) = _
    rw [ih]
    by_cases he : e.1 = v
    · rw [if_pos he, List.filter_cons_of_pos (by simpa using he), List.map_cons,
        List.getLast?_cons]
      rfl
    · rw [if_neg he, List.filter_cons_of_neg (by simpa using he)]

theorem depthOf_declDepths (p : Program) (fs : List FuncId) (v : VarId) :
    depthOf (p.declDepths fs) v 0 = (p.depthsOf fs v).getLast?.getD 0 := by
  rw [depthOf_eq_getLast?]
  unfold Program.declDepths Program.depthsOf
  rw [List.filter_flatMap, List.map_flatMap]
  congr 3
  funext f
  rw [f.declDepths_eq]
  induction occurrences f.stmts with
  | nil => rfl
  | cons x xs ih =>
    cases hx : x.stmt.declared? with
    | none =>
      rw [List.filterMap_cons_none (by rw [Occurrence.declares?, hx]; rfl),
        List.filter_cons_of_neg (by rw [hx]; simp), ih]
    | some w =>
      rw [List.filterMap_cons_some (by rw [Occurrence.declares?, hx]; rfl)]
      by_cases hw : w = v
      · rw [List.filter_cons_of_pos (by simpa using hw),
          List.filter_cons_of_pos (by rw [hx]; simpa using hw), List.map_cons, List.map_cons, ih]
      · rw [List.filter_cons_of_neg (by simpa using hw),
          List.filter_cons_of_neg (by rw [hx]; simpa using hw), ih]

/-! ## New allocations -/

/-- Whatever allocation gets a location on the way gets it at depth `d`. -/
structure Allots (d : Nat) (b b' : BatchGraph) : Prop where
  evolves : Evolves b b'
  fresh : b.Tabled → ∀ i l, b.siteLoc? i = none → b'.siteLoc? i = some l →
    (b'.graph.loc l).owner = .site (.alloc i) ∧ (b'.graph.loc l).loopDepth = d

/-- An allocation keeps its location and its depth. -/
theorem BatchGraph.Keeps.alloc {b b' : BatchGraph} (h : b.Keeps b') {i : SiteId} {l : LocId}
    (hl : (b.graph.loc l).owner = .site (.alloc i)) :
    (b'.graph.loc l).owner = .site (.alloc i) ∧
      (b'.graph.loc l).loopDepth = (b.graph.loc l).loopDepth := by
  have hlt : l < b.graph.size := Graph.lt_size_of_site hl
  refine ⟨(h.owner hlt).trans hl, h.depth l hlt fun v hv => ?_⟩
  rw [hl] at hv
  injection hv with hv
  cases hv

namespace Allots

variable {d : Nat} {b b₁ b₂ : BatchGraph}

/-- No allocation gets a location. -/
theorem of_sites (h : Evolves b b₁) (hs : b₁.sites = b.sites) : Allots d b b₁ where
  evolves := h
  fresh _ i l hnone hl := by
    rw [siteLoc?, hs, ← siteLoc?, hnone] at hl
    cases hl

theorem trans (h : Allots d b b₁) (h' : Allots d b₁ b₂) : Allots d b b₂ where
  evolves := Evolution.trans h.evolves h'.evolves
  fresh hb i l hnone hl := by
    obtain ⟨-, hb₁⟩ := h.evolves hb
    cases hi : b₁.siteLoc? i with
    | none => exact h'.fresh hb₁ i l hi hl
    | some l' =>
      have hk := (h'.evolves hb₁).1
      obtain rfl : l' = l := Option.some.inj ((hk.sites i l' hi).symm.trans hl)
      obtain ⟨howner, hdepth⟩ := h.fresh hb i l' hnone hi
      rw [← hdepth]
      exact hk.alloc howner

end Allots

instance evolutionAt_allots (pl : Place) : EvolutionAt pl (Allots pl.depth) where
  refl b := .of_sites (Evolution.refl b) rfl
  trans h h' := h.trans h'
  flow b notes k src := .of_sites (Evolution.flow b notes k src) (flow_sites notes k src b)
  global b v hv := .of_sites (Evolution.global b v hv) rfl
  captured b l := .of_sites (Evolution.captured b l) rfl
  temp b persists := .of_sites (Evolution.temp b pl persists) rfl
  site b i hi := by
    refine ⟨Evolution.site b pl i hi, fun _ j l hnone hl => ?_⟩
    rcases (siteLoc?_pushSite hi pl j l).1 hl with hl | ⟨rfl, rfl⟩
    · rw [hnone] at hl
      cases hl
    · show ((b.graph.push _).loc _).owner = _ ∧ ((b.graph.push _).loc _).loopDepth = _
      rw [b.graph.push_loc_self]
      exact ⟨rfl, rfl⟩

instance respects_allots_settle (d : Nat) (v : VarId) (d' : Nat) :
    Respects (Allots d) (settle v d') where
  run {b a b₁} h := by
    refine .of_sites (Respects.run h) ?_
    rw [run_settle] at h
    split at h
    · cases h
      rfl
    · cases h

/-! ## Allocations gone through -/

/-- The allocations `ts` have been gone through and no others, and each has its location, at the
depth given. -/
structure Stocked (F : FuncId → Prop) (D : List VarId) (ts : List (SiteId × Nat))
    (b : BatchGraph) : Prop where
  placed : Placed F D (ts.map Prod.fst : List SiteId) b
  tabled : b.Tabled
  depth : ∀ t ∈ ts, ∃ l, b.siteLoc? t.1 = some l ∧
    (b.graph.loc l).owner = .site (.alloc t.1) ∧ (b.graph.loc l).loopDepth = t.2

theorem BatchGraph.siteLoc?_eq_none {b : BatchGraph} {i : SiteId} :
    b.siteLoc? i = none ↔ i ∉ b.sites.map Prod.fst := by
  unfold siteLoc?
  rw [List.lookup_eq_none_iff]
  grind

/-- The same build twice, for what it says about one. -/
abbrev oneBuild (F : FuncId → Prop) (D : List VarId) : Coupling :=
  sameBuild False (fun _ => True) F D

theorem lockstep_oneBuild (s : Scene) (F : FuncId → Prop) (D : List VarId) :
    Lockstep (oneBuild F D) s s :=
  lockstep_sameBuild s (.refl s.program) (fun _ => True) F D fun _ _ _ => rfl

theorem Lockstep.guarding_steps {c : Coupling} {s s' : Scene} (L : Lockstep c s s') {m : Nat}
    (pl : c.Spot) (cond : Option Expr) (h : CallsOnly c.Callee (Expr.nodesOfList cond.toList)) :
    c.Steps m (allocSites (Expr.nodesOfList cond.toList)) (fun _ _ _ => True)
      (guarding s pl cond) (guarding s' pl cond) := by
  cases cond with
  | none => exact .pure fun _ _ => trivial
  | some e =>
    rw [Option.toList_some, Expr.nodesOfList_singleton] at h ⊢
    exact L.value_steps pl e L.discard h

namespace Stocked

variable {F : FuncId → Prop} {D : List VarId} {ts : List (SiteId × Nat)} {b b₁ : BatchGraph}

/-- An action that goes through the allocations of some expressions, all at one depth. -/
theorem run (h : Stocked F D ts b) {α : Type} {x : Build α} {es : List Expr} {m d : Nat}
    {Q : α → α → Nat → Prop} (hm : m ≤ b.graph.size)
    (hsteps : (oneBuild F D).Steps m (allocSites es) Q x x) [hx : Respects (Allots d) x] {a : α}
    (hrun : x.run b = .ok (a, b₁)) :
    Stocked F D (ts ++ (es.filterMap Expr.allocSite?).map (·, d)) b₁ := by
  have hallots : Allots d b b₁ := hx.run hrun
  obtain ⟨hk, htabled⟩ := hallots.evolves h.tabled
  have hplaced : Placed F D ((ts.map Prod.fst : List SiteId) + allocSites es) b₁ := by
    have hout := hsteps _ b b ⟨rfl, h.placed⟩ hm
    rw [hrun] at hout
    exact hout.1.2
  have hnodup : ((ts.map Prod.fst : List SiteId) + allocSites es).Nodup := by
    rw [hplaced.count]
    exact hplaced.keys
  refine ⟨?_, htabled, fun t ht => ?_⟩
  · rw [List.map_append, List.map_map, ← Multiset.coe_add]
    show Placed F D (_ + ↑((es.filterMap Expr.allocSite?).map id)) b₁
    rw [List.map_id]
    exact hplaced
  · rcases List.mem_append.1 ht with ht | ht
    · obtain ⟨l, hl, howner, hdepth⟩ := h.depth t ht
      rw [← hdepth]
      exact ⟨l, hk.sites _ l hl, hk.alloc howner⟩
    · obtain ⟨i, hi, rfl⟩ := List.mem_map.1 ht
      -- no allocation is gone through twice, so this one is new
      have hnew : b.siteLoc? i = none := by
        rw [siteLoc?_eq_none]
        intro hmem
        refine (Multiset.disjoint_left.1 (Multiset.nodup_add.1 hnodup).2.2) ?_ hi
        rw [h.placed.count]
        exact hmem
      cases hl : b₁.siteLoc? i with
      | none =>
        refine absurd ?_ (siteLoc?_eq_none.1 hl)
        have hmem : i ∈ (ts.map Prod.fst : List SiteId) + allocSites es :=
          Multiset.mem_add.2 (.inr hi)
        rw [hplaced.count] at hmem
        exact hmem
      | some l => exact ⟨l, rfl, hallots.fresh h.tabled i l hnew hl⟩

end Stocked

/-! ## Going through bodies -/

section Walk

variable {F : FuncId → Prop} {D : List VarId} (s : Scene) (body : List Stmt)

theorem callsOnly_true (xs : List Expr) : CallsOnly (fun _ => True) xs :=
  fun _ _ _ _ => trivial

/-- A statement that holds no other. -/
theorem Stocked.leaf {x : Stmt} (hx : x.nodes = .stmt x :: x.exprNodes) {layers : List Layer}
    (hin : x.within layers = []) {pl : Place} (hpl : F pl.func)
    (hd : loopsAround body layers = pl.depth)
    [Respects (Allots pl.depth) (stmt s (loopingLabels body) pl x)] {ts : List (SiteId × Nat)}
    {b b₁ : BatchGraph} {u : Unit} (h : Stocked F D ts b)
    (hrun : (stmt s (loopingLabels body) pl x).run b = .ok (u, b₁)) :
    Stocked F D (ts ++ ((⟨x, layers⟩ : Occurrence) :: x.within layers).flatMap
      (Occurrence.allocs body)) b₁ := by
  have hsteps := (lockstep_oneBuild s F D).stmt_steps (loopingLabels body) ⟨pl, hpl⟩ x
    (m := 0) (callsOnly_true _)
  rw [Stmt.parts_of_nodes hx] at hsteps
  rw [hin, List.flatMap_singleton, Occurrence.allocs, Occurrence.depth, hd]
  exact h.run (Nat.zero_le _) hsteps hrun

mutual

-- the walk is as deep as the layers say; at a loop they count the loop already, the place does not
theorem stocked_stmt : ∀ (x : Stmt) (layers : List Layer) (pl : Place)
    {ts : List (SiteId × Nat)} {b b₁ : BatchGraph} {u : Unit}, F pl.func →
    loopsAround body layers = pl.depth + x.isLoop.toNat → Stocked F D ts b →
    (stmt s (loopingLabels body) pl x).run b = .ok (u, b₁) →
    Stocked F D (ts ++ ((⟨x, layers⟩ : Occurrence) :: x.within layers).flatMap
      (Occurrence.allocs body)) b₁
  | .ifElse cond t e, layers, pl, ts, b, b₁, u, hpl, hd, h, hrun => by
    rw [stmt] at hrun
    obtain ⟨_, b₂, h₂, hrun⟩ := run_bind_eq_ok hrun
    obtain ⟨_, b₃, h₃, hrun⟩ := run_bind_eq_ok hrun
    have L := lockstep_oneBuild s F D
    have hcond := h.run (d := pl.depth) (Nat.zero_le _)
      (L.value_steps ⟨pl, hpl⟩ cond L.discard (callsOnly_true _)) h₂
    have hall := stocked_stmts e layers [] pl hpl hd.symm
      (stocked_stmts t layers [] pl hpl hd.symm hcond h₃) hrun
    rw [Stmt.within, List.flatMap_cons, List.flatMap_append, Occurrence.allocs, Occurrence.depth,
      hd, Stmt.exprs, Expr.nodesOfList_singleton, ← List.append_assoc, ← List.append_assoc]
    exact hall
  | .loop cond xs, layers, pl, ts, b, b₁, u, hpl, hd, h, hrun => by
    rw [stmt_loop] at hrun
    obtain ⟨_, b₂, h₂, hrun⟩ := run_bind_eq_ok hrun
    have L := lockstep_oneBuild s F D
    have : EvolutionAt ⟨pl.func, pl.depth + 1⟩ (Allots (pl.depth + 1)) := evolutionAt_allots _
    have hcond := h.run (d := pl.depth + 1) (Nat.zero_le _)
      (L.guarding_steps ⟨⟨pl.func, pl.depth + 1⟩, hpl⟩ cond (callsOnly_true _)) h₂
    have hall := stocked_stmts xs layers [] ⟨pl.func, pl.depth + 1⟩ hpl hd.symm hcond hrun
    rw [Stmt.within, List.flatMap_cons, Occurrence.allocs, Occurrence.depth, hd, Stmt.exprs,
      ← List.append_assoc]
    exact hall
  | .block xs, layers, pl, ts, b, b₁, u, hpl, hd, h, hrun => by
    rw [stmt] at hrun
    rw [Stmt.within, List.flatMap_cons]
    exact stocked_stmts xs layers [] pl hpl hd.symm h hrun
  | .decl v init, layers, pl, ts, b, b₁, u, hpl, hd, h, hrun => by
    have : Respects (Allots pl.depth) (stmt s (loopingLabels body) pl (.decl v init)) := by
      rw [stmt_decl]
      infer_instance
    exact h.leaf s body (by rw [Stmt.nodes]) (by rw [Stmt.within]) hpl hd hrun
  | .assign lhs rhs, layers, pl, ts, b, b₁, u, hpl, hd, h, hrun => by
    have : Respects (Allots pl.depth) (stmt s (loopingLabels body) pl (.assign lhs rhs)) := by
      rw [stmt]
      infer_instance
    exact h.leaf s body (by rw [Stmt.nodes]) (by rw [Stmt.within]) hpl hd hrun
  | .expr e, layers, pl, ts, b, b₁, u, hpl, hd, h, hrun => by
    have : Respects (Allots pl.depth) (stmt s (loopingLabels body) pl (.expr e)) := by
      rw [stmt_expr]
      infer_instance
    exact h.leaf s body (by rw [Stmt.nodes]) (by rw [Stmt.within]) hpl hd hrun
  | .ret values, layers, pl, ts, b, b₁, u, hpl, hd, h, hrun => by
    have : Respects (Allots pl.depth) (stmt s (loopingLabels body) pl (.ret values)) := by
      rw [stmt]
      infer_instance
    exact h.leaf s body (by rw [Stmt.nodes]) (by rw [Stmt.within]) hpl hd hrun
  | .label l, layers, pl, ts, b, b₁, u, hpl, hd, h, hrun => by
    have : Respects (Allots pl.depth) (stmt s (loopingLabels body) pl (.label l)) := by
      rw [stmt]
      infer_instance
    exact h.leaf s body (by rw [Stmt.nodes]; rfl) (by rw [Stmt.within]) hpl hd hrun
  | .goto l, layers, pl, ts, b, b₁, u, hpl, hd, h, hrun => by
    have : Respects (Allots pl.depth) (stmt s (loopingLabels body) pl (.goto l)) := by
      rw [stmt]
      infer_instance
    exact h.leaf s body (by rw [Stmt.nodes]; rfl) (by rw [Stmt.within]) hpl hd hrun
  | .go e, layers, pl, ts, b, b₁, u, hpl, hd, h, hrun => by
    have : Respects (Allots pl.depth) (stmt s (loopingLabels body) pl (.go e)) := by
      rw [stmt]
      infer_instance
    exact h.leaf s body (by rw [Stmt.nodes]) (by rw [Stmt.within]) hpl hd hrun
  | .defer e, layers, pl, ts, b, b₁, u, hpl, hd, h, hrun => by
    have : Respects (Allots pl.depth) (stmt s (loopingLabels body) pl (.defer e)) := by
      rw [stmt]
      infer_instance
    exact h.leaf s body (by rw [Stmt.nodes]) (by rw [Stmt.within]) hpl hd hrun

theorem stocked_stmts : ∀ (xs : List Stmt) (outer : List Layer) (before : List Stmt) (pl : Place)
    {ts : List (SiteId × Nat)} {b b₁ : BatchGraph} {u : Unit}, F pl.func →
    pl.depth = depthAt body outer before → Stocked F D ts b →
    (stmts s (loopingLabels body) pl xs).run b = .ok (u, b₁) →
    Stocked F D (ts ++ (Stmt.withinList outer before xs).flatMap (Occurrence.allocs body)) b₁
  | [], outer, before, pl, ts, b, b₁, u, hpl, hd, h, hrun => by
    rw [stmts] at hrun
    cases hrun
    rw [Stmt.withinList, List.flatMap_nil, List.append_nil]
    exact h
  | x :: xs, outer, before, pl, ts, b, b₁, u, hpl, hd, h, hrun => by
    rw [stmts] at hrun
    obtain ⟨_, b₂, h₂, hrun⟩ := run_bind_eq_ok hrun
    have hhead := stocked_stmt x (⟨before, x⟩ :: outer) pl hpl
      (by rw [loopsAround_layer, hd]) h h₂
    rw [Stmt.withinList, ← List.cons_append, List.flatMap_append, ← List.append_assoc]
    have hnext : depthAfter (loopingLabels body) pl.depth x =
        depthAt body outer (before ++ [x]) := by
      rw [depthAt_concat, hd]
    exact stocked_stmts xs outer (before ++ [x]) ⟨pl.func, depthAfter _ pl.depth x⟩ hpl hnext hhead
      hrun

end

end Walk

theorem stocked_body {F : FuncId → Prop} {D : List VarId} (s : Scene) {f : Function} (hf : F f.id)
    {ts : List (SiteId × Nat)} {b b₁ : BatchGraph} {u : Unit} (h : Stocked F D ts b)
    (hrun : (body s f).run b = .ok (u, b₁)) :
    Stocked F D (ts ++ (occurrences f.stmts).flatMap (Occurrence.allocs f.stmts)) b₁ := by
  unfold body at hrun
  unfold Function.stmts
  generalize f.body = xs at hrun ⊢
  cases xs with
  | none =>
    cases hrun
    rw [show occurrences (none.getD []) = [] from rfl, List.flatMap_nil, List.append_nil]
    exact h
  | some xs => exact stocked_stmts s xs xs [] [] ⟨f.id, 0⟩ hf rfl h hrun

/-- All bodies of a batch, one after the other. -/
theorem stocked_bodies {F : FuncId → Prop} {D : List VarId} (s : Scene) (ds : List Function)
    (hF : ∀ d ∈ ds, F d.id) {ts : List (SiteId × Nat)} {b b₁ : BatchGraph} {u : Unit}
    (h : Stocked F D ts b) (hrun : (ds.forM (body s)).run b = .ok (u, b₁)) :
    Stocked F D (ts ++ ds.flatMap fun d => (occurrences d.stmts).flatMap
      (Occurrence.allocs d.stmts)) b₁ := by
  induction ds generalizing ts b with
  | nil =>
    cases hrun
    rwa [List.flatMap_nil, List.append_nil]
  | cons d ds ih =>
    obtain ⟨_, b₂, h₂, hrun⟩ := run_bind_eq_ok hrun
    rw [List.flatMap_cons, ← List.append_assoc]
    exact ih (fun d' hd' => hF d' (List.mem_cons_of_mem _ hd'))
      (stocked_body s (hF d List.mem_cons_self) h h₂) hrun

/-! ## The depths of a built graph -/

section Built

variable {p : Program} {fs : List FuncId} {summary? : FuncId → Option Summary} {o : BuildOptions}
  {b : BatchGraph} {f : FuncId} {d : Function}

theorem alloc_depth_of_build (hb : build p fs summary? o = .ok b) (hf : f ∈ fs)
    (hd : p.function? f = some d) {x : Occurrence} (hx : x ∈ occurrences d.stmts) {e : Expr}
    (he : e ∈ Expr.nodesOfList x.stmt.exprs) {i : SiteId} (hi : e.allocSite? = some i) :
    ∃ l, b.siteLoc? i = some l ∧ (b.graph.loc l).owner = .site (.alloc i) ∧
      (b.graph.loc l).loopDepth = x.depth d.stmts := by
  obtain ⟨ds, b₀, hds, hb₀, hrun, -⟩ := exists_passes hb
  have hstart : Stocked (fun g => ∃ d ∈ ds, d.id = g) _ [] b₀ :=
    ⟨hb₀.placed_declared, hb₀.tabled, nofun⟩
  have hstocked := stocked_bodies _ ds (fun d hd => ⟨d, hd, rfl⟩) hstart hrun
  refine hstocked.depth (i, x.depth d.stmts) (List.mem_flatMap.2 ⟨d, ?_, ?_⟩)
  · exact mem_of_forall₂_left hds hf hd
  · exact List.mem_flatMap.2 ⟨x, hx, List.mem_map.2 ⟨i, List.mem_filterMap.2 ⟨e, he, hi⟩, rfl⟩⟩

theorem var_depth_of_build (hb : build p fs summary? o = .ok b) (hf : f ∈ fs)
    (hd : p.function? f = some d) {v : VarId} (hv : v ∈ d.declared) :
    ∃ l, b.varLoc? v = some l ∧ (b.graph.loc l).isGlobal = false ∧
      (b.graph.loc l).loopDepth = (p.depthsOf fs v).getLast?.getD 0 := by
  obtain ⟨ds, b₀, hds, hb₀, -, hk⟩ := exists_passes hb
  rw [← declEntries_fst (scene p fs summary? o ds)] at hv
  obtain ⟨⟨v, x⟩, hx, rfl⟩ := List.mem_map.1 hv
  obtain ⟨l, hl, hloc⟩ := hb₀.varLoc?_of_mem
    (List.mem_flatMap.2 ⟨d, mem_of_forall₂_left hds hf hd, hx⟩)
  obtain ⟨howner, hglobal, -⟩ := mem_declEntries hx
  have hlt : l < b₀.graph.size := Graph.lt_size_of_site (hloc ▸ howner)
  have hrole : (b.graph.loc l).role = x.role := by rw [hk.role l hlt, hloc]
  refine ⟨l, hk.vars v l hl, (congrArg Role.isGlobal hrole).trans hglobal, ?_⟩
  rw [← depthOf_declDepths]
  refine build_depth hb ((congrArg Role.owner hrole).trans howner) ?_
  rw [show (b.graph.loc l).func = x.func from congrArg Role.func hrole, declEntries_func hx]
  rfl

/-- In a built graph, an allocation has as many loops around it as the statement that it stands in,
and a declared variable as many as its last declaration in the batch, or none if there is none. -/
theorem build_loopDepth (hb : build p fs summary? o = .ok b) (hf : f ∈ fs)
    (hd : p.function? f = some d) :
    (∀ l, l ∈ loopingLabels d.stmts ↔ JumpsBack (bodyStmts d.stmts) l) ∧
      (occurrences d.stmts).map Occurrence.stmt = bodyStmts d.stmts ∧
      bodyExprs d.stmts = ((occurrences d.stmts).flatMap fun x => Expr.nodesOfList x.stmt.exprs) ∧
      (∀ x ∈ occurrences d.stmts, ∀ e ∈ Expr.nodesOfList x.stmt.exprs, ∀ i,
        e.allocSite? = some i → ∃ l, b.siteLoc? i = some l ∧
          (b.graph.loc l).owner = .site (.alloc i) ∧
          (b.graph.loc l).loopDepth = x.depth d.stmts) ∧
      ∀ v ∈ d.declared, ∃ l, b.varLoc? v = some l ∧ (b.graph.loc l).isGlobal = false ∧
        (b.graph.loc l).loopDepth = (p.depthsOf fs v).getLast?.getD 0 :=
  ⟨fun _ => mem_loopingLabels_iff, occurrences_stmts _, bodyExprs_eq_occurrences _,
    fun _ hx _ he _ hi => alloc_depth_of_build hb hf hd hx he hi,
    fun _ hv => var_depth_of_build hb hf hd hv⟩

end Built

/-- A loop after a label that is jumped back to, with an allocation in its condition, and a variable
that is declared in the loop and again behind it. -/
def loopAfterLabel : Program where
  functions := #[
    { id := ⟨0⟩
      name := "f"
      locals := [⟨0⟩]
      body := some [.label ⟨0⟩,
        .loop (some (.deref (.new ⟨0⟩))) [.decl ⟨0⟩ (some (.new ⟨1⟩))],
        .goto ⟨0⟩, .label ⟨1⟩, .decl ⟨0⟩ none] }]
  vars := #[⟨⟨0⟩, "x", .localVar, some ⟨0⟩⟩]
  sites := #[⟨⟨0⟩, .new, ⟨0⟩⟩, ⟨⟨1⟩, .new, ⟨0⟩⟩]

theorem build_loopDepth_loopAfterLabel :
    ∃ b, build loopAfterLabel [⟨0⟩] (fun _ => none) {} = .ok b ∧
      (∃ l, b.siteLoc? ⟨0⟩ = some l ∧ (b.graph.loc l).loopDepth = 2) ∧
      ∃ l, b.varLoc? ⟨0⟩ = some l ∧ (b.graph.loc l).loopDepth = 1 := by
  have hbuild : (build loopAfterLabel [⟨0⟩] (fun _ => none) {}).map (fun _ => ()) = .ok () := by cbv
  obtain ⟨b, hb, -⟩ := exists_of_map_eq_ok hbuild
  obtain ⟨-, -, -, hsites, hvars⟩ := build_loopDepth hb (.head _) rfl
  refine ⟨b, hb, ?_, ?_⟩
  · obtain ⟨l, hl, -, hdepth⟩ := hsites _ (.tail _ (.head _)) _ (.tail _ (.head _)) _ rfl
    exact ⟨l, hl, hdepth.trans (by decide)⟩
  · obtain ⟨l, hl, -, hdepth⟩ := hvars ⟨0⟩ (.head _)
    exact ⟨l, hl, hdepth.trans (by decide)⟩

end EscapeFlow
