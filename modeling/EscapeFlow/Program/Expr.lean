import EscapeFlow.Program.Id

/-!
# Expressions

Expression trees with everything that matters to where values flow.  `Expr.nodes` lists
an expression and all its parts, each before its own parts; closures are not entered,
because the body of a closure belongs to a function of its own.
-/

namespace EscapeFlow

inductive Literal where
  | int (n : Int)
  | bool (b : Bool)
  | str (s : String)
  | nil
deriving DecidableEq, Inhabited

/-- What an index expression selects from.  An array holds its elements, a slice points
to them, and a map keeps them in storage of its own. -/
inductive IndexKind where
  | array
  | slice
  | map
deriving DecidableEq, Inhabited

inductive CompositeKind where
  | struct
  | array
  | slice
deriving DecidableEq, Inhabited

/-- What an allocation expression creates. -/
inductive AllocKind where
  | new
  | composite (kind : CompositeKind)
  | map
  | closure
deriving DecidableEq, Inhabited

def AllocKind.describe : AllocKind → String
  | .new => "new"
  | .composite .struct => "composite literal"
  | .composite .array => "array literal"
  | .composite .slice => "slice literal"
  | .map => "map literal"
  | .closure => "func literal"

inductive Expr where
  | ident (v : VarId)
  | literal (l : Literal)
  | funcRef (f : FuncId)
  | addrOf (e : Expr)
  | deref (e : Expr)
  | field (base : Expr) (name : String)
  | ptrField (base : Expr) (name : String)
  | index (kind : IndexKind) (base : Expr) (index : Expr)
  | binary (lhs : Expr) (rhs : Expr)
  | call (callee : Expr) (args : List Expr)
  | new (site : SiteId)
  | composite (kind : CompositeKind) (site : SiteId) (elems : List Expr)
  | mapLit (site : SiteId) (entries : List (Expr × Expr))
  | closure (site : SiteId) (func : FuncId)
deriving Inhabited

namespace Expr

def int (n : Int) : Expr := .literal (.int n)

def nil : Expr := .literal .nil

def callFunc (f : FuncId) (args : List Expr) : Expr := .call (.funcRef f) args

/-- The function a call of this expression is known to run. -/
def staticCallee : Expr → Option FuncId
  | .funcRef f => some f
  | .closure _ f => some f
  | _ => none

def isCall : Expr → Bool
  | .call _ _ => true
  | _ => false

/-- The variable whose storage the expression designates. -/
def storageVar : Expr → Option VarId
  | .ident v => some v
  | .field base _ => base.storageVar
  | .index .array base _ => base.storageVar
  | _ => none

/-- Whether taking the address of the expression makes sense. -/
def isAddressable : Expr → Bool
  | .literal _ | .funcRef _ | .addrOf _ | .binary _ _ | .call _ _ | .new _ | .closure _ _ => false
  | _ => true

mutual

/-- The expression and its parts, each before its own parts. -/
def nodes : Expr → List Expr
  | .ident v => [.ident v]
  | .literal l => [.literal l]
  | .funcRef f => [.funcRef f]
  | .addrOf e => .addrOf e :: nodes e
  | .deref e => .deref e :: nodes e
  | .field base name => .field base name :: nodes base
  | .ptrField base name => .ptrField base name :: nodes base
  | .index kind base i => .index kind base i :: (nodes base ++ nodes i)
  | .binary lhs rhs => .binary lhs rhs :: (nodes lhs ++ nodes rhs)
  | .call callee args => .call callee args :: (nodes callee ++ nodesOfList args)
  | .new site => [.new site]
  | .composite kind site elems => .composite kind site elems :: nodesOfList elems
  | .mapLit site entries => .mapLit site entries :: nodesOfEntries entries
  | .closure site func => [.closure site func]

def nodesOfList : List Expr → List Expr
  | [] => []
  | e :: es => nodes e ++ nodesOfList es

def nodesOfEntries : List (Expr × Expr) → List Expr
  | [] => []
  | (k, v) :: es => nodes k ++ (nodes v ++ nodesOfEntries es)

end

end Expr

end EscapeFlow
