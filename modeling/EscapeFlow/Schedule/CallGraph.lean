import EscapeFlow.Program.Basic
import EscapeFlow.Total

/-!
# Call graphs

Which top-level functions a top-level function refers to.  A reference made inside a closure
counts for the function around it, and a reference to a closure for the function around that.
-/

namespace EscapeFlow

namespace Program

/-- The function of the program that an expression refers to by name, taken outermost. -/
def referenced? (p : Program) : Expr → Option FuncId
  | .funcRef f => if (p.function? f).isSome then some (p.outermost f) else none
  | _ => none

/-- The bodies that belong to a top-level function: its own and those of its closures. -/
def bodiesOf (p : Program) (f : Function) : List (List Stmt) :=
  f.stmts :: (p.nestedClosures f.id).filterMap fun c => (p.function? c).map (·.stmts)

/-- The functions that a top-level function refers to, in the order of the text. -/
def references (p : Program) (f : Function) : List FuncId :=
  ((p.bodiesOf f).flatMap fun body => (bodyExprs body).filterMap p.referenced?).eraseDups

end Program

structure CallGraph where
  /-- The top-level functions in table order. -/
  nodes : List FuncId
  /-- Functions with the functions they refer to, the latest entry for a function first. -/
  table : List (FuncId × List FuncId)

namespace CallGraph

def ofProgram (p : Program) : CallGraph where
  nodes := p.topLevel.map (·.id)
  table := (p.topLevel.map fun f => (f.id, p.references f)).reverse

def callees (g : CallGraph) (f : FuncId) : List FuncId := (g.table.lookup f).getD []

def edgeCount (g : CallGraph) : Nat := total (fun f => (g.callees f).length) g.nodes.eraseDups

/-- Every function that is a node or referred to. -/
def vertices (g : CallGraph) : List FuncId :=
  (g.nodes ++ g.nodes.flatMap g.callees).eraseDups

end CallGraph

end EscapeFlow
