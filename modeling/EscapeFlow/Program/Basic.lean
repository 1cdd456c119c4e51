import EscapeFlow.Program.Stmt

/-!
# Programs

A program is three tables.  A handle is looked up by position, whatever identifier the entry
stores, and nothing is promised about entries agreeing with each other: a program read from
outside may hold dangling handles or enclosing functions in a circle.  The walks along
enclosing functions therefore take at most one step more than there are functions.
-/

namespace EscapeFlow

inductive Storage where
  | param
  | result
  | localVar
  | globalVar
deriving DecidableEq, Inhabited

structure Variable where
  id : VarId
  name : String
  storage : Storage
  /-- The function that declares it; a global has none. -/
  func : Option FuncId
deriving DecidableEq, Inhabited

namespace Variable

def isGlobal (v : Variable) : Bool := v.storage = .globalVar

end Variable

structure Function where
  id : FuncId
  name : String
  params : List VarId := []
  results : List VarId := []
  locals : List VarId := []
  /-- A function implemented elsewhere has no body. -/
  body : Option (List Stmt) := none
  /-- The function a closure is written in. -/
  enclosing : Option FuncId := none
  /-- Variables of enclosing functions that a closure uses. -/
  captures : List VarId := []
  /-- For a function without body: its parameters are known not to escape. -/
  noescape : Bool := false
deriving Inhabited

namespace Function

/-- The variables a function declares: parameters, results, locals. -/
def declared (f : Function) : List VarId := f.params ++ (f.results ++ f.locals)

def isClosure (f : Function) : Bool := f.enclosing.isSome

def isExternal (f : Function) : Bool := f.body.isNone

def stmts (f : Function) : List Stmt := f.body.getD []

end Function

structure AllocSite where
  id : SiteId
  kind : AllocKind
  /-- The function whose body holds the allocation. -/
  func : FuncId
deriving DecidableEq, Inhabited

structure Program where
  functions : Array Function := #[]
  vars : Array Variable := #[]
  sites : Array AllocSite := #[]
deriving Inhabited

namespace Program

def function? (p : Program) (f : FuncId) : Option Function := p.functions[f.index]?

def var? (p : Program) (v : VarId) : Option Variable := p.vars[v.index]?

def site? (p : Program) (s : SiteId) : Option AllocSite := p.sites[s.index]?

def varName (p : Program) (v : VarId) : String := ((p.var? v).map (·.name)).getD "?"

def funcName (p : Program) (f : FuncId) : String := ((p.function? f).map (·.name)).getD "?"

def globals (p : Program) : List Variable := p.vars.toList.filter (·.isGlobal)

/-- The functions that are not closures. -/
def topLevel (p : Program) : List Function := p.functions.toList.filter (!·.isClosure)

def enclosing? (p : Program) (f : FuncId) : Option FuncId := (p.function? f).bind (·.enclosing)

/-- At most `n` steps outwards from `f`. -/
def climb (p : Program) : Nat → FuncId → FuncId
  | 0, f => f
  | n + 1, f =>
    match p.enclosing? f with
    | some outer => p.climb n outer
    | none => f

/-- Whether `outer` is met within `n` steps outwards from `inner`. -/
def meets (p : Program) (outer : FuncId) : Nat → FuncId → Bool
  | 0, _ => false
  | n + 1, inner =>
    match p.enclosing? inner with
    | some f => f = outer || p.meets outer n f
    | none => false

/-- The function that `f` lies in and that lies in no other. -/
def outermost (p : Program) (f : FuncId) : FuncId := p.climb (p.functions.size + 1) f

/-- Whether `inner` is a closure written inside `outer`, at any depth. -/
def containsClosure (p : Program) (outer inner : FuncId) : Bool :=
  outer ≠ inner && p.meets outer (p.functions.size + 1) inner

/-- The closures written inside `f`, at any depth. -/
def nestedClosures (p : Program) (f : FuncId) : List FuncId :=
  (p.functions.toList.filter fun g => g.isClosure && p.containsClosure f g.id).map (·.id)

end Program

end EscapeFlow
