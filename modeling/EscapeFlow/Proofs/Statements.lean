import EscapeFlow.Proofs.DeclDepths

/-!
# Lists of statements

What is inside statements, and what a list of statements does to the number of loops around it.

    jumps ys = jumps xs → loopingLabels ys = loopingLabels xs            (loopingLabels_congr)

Only labels and jumps decide which labels count as loops.  Statements without them are gone through
at one depth, each as if it stood alone (`stmts_eq_forM`, `declDepths_eq_flatMap`).
-/

namespace EscapeFlow

open BatchGraph Build

/-! ## Statements inside statements -/

namespace Stmt

/-- A label or a jump to one. -/
def isJump : Stmt → Bool
  | .label _ | .goto _ => true
  | _ => false

/-- The variable that a statement declares. -/
def declared? : Stmt → Option VarId
  | .decl v _ => some v
  | _ => none

/-- The statement and all statements inside it. -/
def inner (x : Stmt) : List Stmt := x.nodes.filterMap Node.stmt?

theorem filterMap_stmt?_exprNodes (x : Stmt) : x.exprNodes.filterMap Node.stmt? = [] := by
  unfold exprNodes
  rw [List.filterMap_map, List.filterMap_eq_nil_iff]
  exact fun _ _ => rfl

theorem filterMap_stmt?_cons (x : Stmt) (ns : List Node) :
    (Node.stmt x :: ns).filterMap Node.stmt? = x :: ns.filterMap Node.stmt? := rfl

theorem bodyStmts_cons (x : Stmt) (xs : List Stmt) :
    bodyStmts (x :: xs) = x.inner ++ bodyStmts xs := by
  unfold bodyStmts
  rw [nodesOfList, List.filterMap_append]
  rfl

theorem bodyStmts_eq_flatMap (xs : List Stmt) : bodyStmts xs = xs.flatMap inner := by
  induction xs with
  | nil => rfl
  | cons x xs ih => rw [bodyStmts_cons, List.flatMap_cons, ih]

theorem bodyExprs_eq_flatMap (xs : List Stmt) : bodyExprs xs = xs.flatMap parts := by
  induction xs with
  | nil => rfl
  | cons x xs ih => rw [bodyExprs_cons, List.flatMap_cons, ih]

theorem bodyStmts_append (xs ys : List Stmt) :
    bodyStmts (xs ++ ys) = bodyStmts xs ++ bodyStmts ys := by
  rw [bodyStmts_eq_flatMap, bodyStmts_eq_flatMap, bodyStmts_eq_flatMap, List.flatMap_append]

theorem bodyExprs_append (xs ys : List Stmt) :
    bodyExprs (xs ++ ys) = bodyExprs xs ++ bodyExprs ys := by
  rw [bodyExprs_eq_flatMap, bodyExprs_eq_flatMap, bodyExprs_eq_flatMap, List.flatMap_append]

theorem inner_ifElse (cond : Expr) (t e : List Stmt) :
    (ifElse cond t e).inner = .ifElse cond t e :: (bodyStmts t ++ bodyStmts e) := by
  unfold inner bodyStmts
  rw [nodes, filterMap_stmt?_cons, List.filterMap_append, List.filterMap_append,
    filterMap_stmt?_exprNodes]
  rfl

theorem inner_loop (cond : Option Expr) (body : List Stmt) :
    (loop cond body).inner = .loop cond body :: bodyStmts body := by
  unfold inner bodyStmts
  rw [nodes, filterMap_stmt?_cons, List.filterMap_append, filterMap_stmt?_exprNodes]
  rfl

theorem inner_block (body : List Stmt) : (block body).inner = .block body :: bodyStmts body := by
  unfold inner bodyStmts
  rw [nodes, filterMap_stmt?_cons]

/-- A statement that holds no other. -/
theorem inner_of_nodes {x : Stmt} (h : x.nodes = .stmt x :: x.exprNodes) : x.inner = [x] := by
  unfold inner
  rw [h, filterMap_stmt?_cons, filterMap_stmt?_exprNodes]

end Stmt

/-! ## Jumps -/

/-- The labels and jumps inside statements. -/
def jumps (xs : List Stmt) : List Stmt := (bodyStmts xs).filter Stmt.isJump

theorem jumps_cons (x : Stmt) (xs : List Stmt) :
    jumps (x :: xs) = x.inner.filter Stmt.isJump ++ jumps xs := by
  unfold jumps
  rw [Stmt.bodyStmts_cons, List.filter_append]

theorem jumps_append (xs ys : List Stmt) : jumps (xs ++ ys) = jumps xs ++ jumps ys := by
  unfold jumps
  rw [Stmt.bodyStmts_append, List.filter_append]

/-- Which labels are looping depends on labels and jumps only. -/
theorem loopingLabels_go_filter (seen : List LabelId) (xs : List Stmt) :
    loopingLabels.go seen (xs.filter Stmt.isJump) = loopingLabels.go seen xs := by
  induction xs generalizing seen with
  | nil => rfl
  | cons x xs ih =>
    cases x with
    | label l =>
      rw [List.filter_cons_of_pos rfl, loopingLabels.go, loopingLabels.go]
      exact ih _
    | goto l =>
      rw [List.filter_cons_of_pos rfl, loopingLabels.go, loopingLabels.go, ih]
    | _ =>
      rw [List.filter_cons_of_neg Bool.false_ne_true, loopingLabels.go]
      · exact ih _
      · exact nofun
      · exact nofun

theorem loopingLabels_congr {xs ys : List Stmt} (h : jumps ys = jumps xs) :
    loopingLabels ys = loopingLabels xs := by
  unfold loopingLabels
  rw [← loopingLabels_go_filter, ← loopingLabels_go_filter [] (bodyStmts xs)]
  exact congrArg _ h

/-! ## Lists one after the other -/

/-- The number of loops around what follows a list of statements. -/
def depthAfterList (looping : List LabelId) (d : Nat) (xs : List Stmt) : Nat :=
  xs.foldl (depthAfter looping) d

theorem stmts_append (s : Scene) (looping : List LabelId) (pl : Place) (xs ys : List Stmt) :
    stmts s looping pl (xs ++ ys) = (stmts s looping pl xs >>= fun _ =>
      stmts s looping ⟨pl.func, depthAfterList looping pl.depth xs⟩ ys) := by
  induction xs generalizing pl with
  | nil =>
    rw [List.nil_append, stmts, pure_bind]
    rfl
  | cons x xs ih =>
    rw [List.cons_append, stmts, stmts, ih, bind_assoc]
    rfl

theorem declDepths_append (looping : List LabelId) (d : Nat) (xs ys : List Stmt) :
    Stmt.declDepthsOfList looping d (xs ++ ys) = Stmt.declDepthsOfList looping d xs ++
      Stmt.declDepthsOfList looping (depthAfterList looping d xs) ys := by
  induction xs generalizing d with
  | nil =>
    rw [List.nil_append, Stmt.declDepthsOfList]
    rfl
  | cons x xs ih =>
    rw [List.cons_append, Stmt.declDepthsOfList, Stmt.declDepthsOfList, ih, List.append_assoc]
    rfl

mutual

/-- Only declarations have a depth. -/
theorem Stmt.declDepths_fst (looping : List LabelId) : ∀ (x : Stmt) (d : Nat),
    (x.declDepths looping d).map Prod.fst = x.inner.filterMap Stmt.declared?
  | .decl v init, d => by
    rw [Stmt.declDepths, inner_of_nodes (by rw [Stmt.nodes])]
    rfl
  | .ifElse cond t e, d => by
    rw [Stmt.declDepths, inner_ifElse, List.map_append, Stmt.declDepthsOfList_fst looping t d,
      Stmt.declDepthsOfList_fst looping e d, List.filterMap_cons_none rfl, List.filterMap_append]
  | .loop cond xs, d => by
    rw [Stmt.declDepths, inner_loop, Stmt.declDepthsOfList_fst looping xs _,
      List.filterMap_cons_none rfl]
  | .block xs, d => by
    rw [Stmt.declDepths, inner_block, Stmt.declDepthsOfList_fst looping xs d,
      List.filterMap_cons_none rfl]
  | .assign lhs rhs, d => by
    rw [Stmt.declDepths, inner_of_nodes (by rw [Stmt.nodes])]
    rfl
  | .expr e, d => by
    rw [Stmt.declDepths, inner_of_nodes (by rw [Stmt.nodes])]
    rfl
  | .ret values, d => by
    rw [Stmt.declDepths, inner_of_nodes (by rw [Stmt.nodes])]
    rfl
  | .label l, d => by
    rw [Stmt.declDepths, inner_of_nodes (by rw [Stmt.nodes]; rfl)]
    rfl
  | .goto l, d => by
    rw [Stmt.declDepths, inner_of_nodes (by rw [Stmt.nodes]; rfl)]
    rfl
  | .go e, d => by
    rw [Stmt.declDepths, inner_of_nodes (by rw [Stmt.nodes])]
    rfl
  | .defer e, d => by
    rw [Stmt.declDepths, inner_of_nodes (by rw [Stmt.nodes])]
    rfl

theorem Stmt.declDepthsOfList_fst (looping : List LabelId) : ∀ (xs : List Stmt) (d : Nat),
    (Stmt.declDepthsOfList looping d xs).map Prod.fst = (bodyStmts xs).filterMap Stmt.declared?
  | [], d => by
    rw [Stmt.declDepthsOfList]
    rfl
  | x :: xs, d => by
    rw [Stmt.declDepthsOfList, bodyStmts_cons, List.map_append, List.filterMap_append,
      Stmt.declDepths_fst looping x d, Stmt.declDepthsOfList_fst looping xs _]

end

/-! ## Statements without jumps -/

theorem depthAfter_of_straight {x : Stmt} (h : x.inner.filter Stmt.isJump = [])
    (looping : List LabelId) (d : Nat) : depthAfter looping d x = d := by
  cases x with
  | label l =>
    rw [Stmt.inner_of_nodes (by rw [Stmt.nodes]; rfl)] at h
    cases h
  | _ => rfl

theorem stmts_eq_forM {xs : List Stmt} (h : jumps xs = []) (s : Scene) (looping : List LabelId)
    (pl : Place) : stmts s looping pl xs = xs.forM (stmt s looping pl) := by
  induction xs with
  | nil =>
    rw [stmts]
    rfl
  | cons x xs ih =>
    rw [jumps_cons, List.append_eq_nil_iff] at h
    rw [stmts, depthAfter_of_straight h.1, ih h.2]
    rfl

theorem declDepths_eq_flatMap {xs : List Stmt} (h : jumps xs = []) (looping : List LabelId)
    (d : Nat) : Stmt.declDepthsOfList looping d xs = xs.flatMap (Stmt.declDepths looping d) := by
  induction xs with
  | nil => rw [Stmt.declDepthsOfList, List.flatMap_nil]
  | cons x xs ih =>
    rw [jumps_cons, List.append_eq_nil_iff] at h
    rw [Stmt.declDepthsOfList, depthAfter_of_straight h.1, ih h.2, List.flatMap_cons]

end EscapeFlow
