import EscapeFlow.Program.Expr

/-!
# Statements

Statement trees, and the list of everything inside them: `Stmt.nodes` gives statements and
expressions in the order of the text, each before its own parts.
-/

namespace EscapeFlow

inductive Stmt where
  | decl (v : VarId) (init : Option Expr)
  | assign (lhs : List Expr) (rhs : List Expr)
  | expr (e : Expr)
  | ifElse (cond : Expr) (thenBody : List Stmt) (elseBody : List Stmt)
  | loop (cond : Option Expr) (body : List Stmt)
  | block (body : List Stmt)
  | ret (values : List Expr)
  | label (l : LabelId)
  | goto (l : LabelId)
  | go (e : Expr)
  | defer (e : Expr)
deriving Inhabited

/-- A statement or an expression of a body. -/
inductive Node where
  | stmt (s : Stmt)
  | expr (e : Expr)

namespace Stmt

def assign1 (lhs rhs : Expr) : Stmt := .assign [lhs] [rhs]

def looping (body : List Stmt) : Stmt := .loop none body

/-- The expressions that stand directly in a statement, without those of its inner statements. -/
def exprs : Stmt → List Expr
  | .decl _ init => init.toList
  | .assign lhs rhs => lhs ++ rhs
  | .expr e | .go e | .defer e => [e]
  | .ifElse cond _ _ => [cond]
  | .loop cond _ => cond.toList
  | .ret values => values
  | .block _ | .label _ | .goto _ => []

def exprNodes (s : Stmt) : List Node := (Expr.nodesOfList s.exprs).map .expr

mutual

/-- The statement and its parts, each before its own parts. -/
def nodes : Stmt → List Node
  | .ifElse cond t e =>
    .stmt (.ifElse cond t e) :: (exprNodes (.ifElse cond t e) ++ (nodesOfList t ++ nodesOfList e))
  | .loop cond body => .stmt (.loop cond body) :: (exprNodes (.loop cond body) ++ nodesOfList body)
  | .block body => .stmt (.block body) :: nodesOfList body
  | .decl v init => .stmt (.decl v init) :: exprNodes (.decl v init)
  | .assign lhs rhs => .stmt (.assign lhs rhs) :: exprNodes (.assign lhs rhs)
  | .expr e => .stmt (.expr e) :: exprNodes (.expr e)
  | .ret values => .stmt (.ret values) :: exprNodes (.ret values)
  | .label l => [.stmt (.label l)]
  | .goto l => [.stmt (.goto l)]
  | .go e => .stmt (.go e) :: exprNodes (.go e)
  | .defer e => .stmt (.defer e) :: exprNodes (.defer e)

def nodesOfList : List Stmt → List Node
  | [] => []
  | s :: ss => nodes s ++ nodesOfList ss

end

end Stmt

namespace Node

def expr? : Node → Option Expr
  | .stmt _ => none
  | .expr e => some e

def stmt? : Node → Option Stmt
  | .stmt s => some s
  | .expr _ => none

end Node

/-- All expressions inside a list of statements. -/
def bodyExprs (body : List Stmt) : List Expr := (Stmt.nodesOfList body).filterMap Node.expr?

/-- All statements inside a list of statements. -/
def bodyStmts (body : List Stmt) : List Stmt := (Stmt.nodesOfList body).filterMap Node.stmt?

end EscapeFlow
