import EscapeFlow.Flow.Hole
import EscapeFlow.Report.Summary

/-!
# Building the graph of a batch

The functions of a batch get one graph.  First every variable they declare gets a location,
then the bodies are gone through in order.  Each expression is evaluated into a hole, and the
places where a value comes from add edges to the location the hole leads to.  A call of a
function outside the batch is modelled by its summary.

An address that flows into a location which escapes already makes its owner escape at once,
and no edge is added (`BatchGraph.flow`).
-/

namespace EscapeFlow

/-- A graph with the locations of variables and allocations. -/
structure BatchGraph where
  graph : Graph := .sinks
  vars : List (VarId × LocId) := []
  sites : List (SiteId × LocId) := []
deriving Inhabited

/-- What building looks at and does not change. -/
structure Scene where
  program : Program
  /-- The functions of the batch. -/
  members : List FuncId
  summary? : FuncId → Option Summary
  /-- Whether calls inside the batch lead to the parameters of the callee. -/
  precise : Bool
  /-- Whether edges carry notes, and early escapes a path. -/
  notes : Bool
  /-- Variables that are assigned to. -/
  reassigned : List VarId
  /-- Variables whose address is taken. -/
  addrTaken : List VarId

/-- A place in a body: the function, and how many loops are around it. -/
structure Place where
  func : FuncId
  depth : Nat

/-- How a call is run: at once, on its own at any later time, or when the function ends. -/
inductive CallMode where
  | plain
  | spawned
  | deferred
deriving DecidableEq

abbrev Build := StateT BatchGraph (Except Error)

/-! ## Scanning bodies -/

/-- The variables that a statement assigns to as a whole. -/
def Stmt.assignedVars : Stmt → List VarId
  | .assign lhs _ => lhs.filterMap fun
    | .ident v => some v
    | _ => none
  | _ => []

/-- The variable whose address an expression takes. -/
def Expr.addressedVar : Expr → Option VarId
  | .addrOf e => e.storageVar
  | _ => none

/-- A label is looping when a jump to it comes after it. -/
def loopingLabels (body : List Stmt) : List LabelId :=
  go [] (bodyStmts body)
where
  go (seen : List LabelId) : List Stmt → List LabelId
    | [] => []
    | .label l :: rest => go (l :: seen) rest
    | .goto l :: rest => if l ∈ seen then l :: go seen rest else go seen rest
    | _ :: rest => go seen rest

namespace BatchGraph

def varLoc? (b : BatchGraph) (v : VarId) : Option LocId := b.vars.lookup v

def siteLoc? (b : BatchGraph) (s : SiteId) : Option LocId := b.sites.lookup s

def update (b : BatchGraph) (l : LocId) (f : Location → Location) : BatchGraph :=
  { b with graph := b.graph.update l f }

/-- The value of `src` flows into the hole `k`. -/
def flow (notes : Bool) (k : Hole) (src : LocId) (b : BatchGraph) : BatchGraph :=
  let b := if k.addrTaken then b.update src fun l => { l with addrTaken := true } else b
  match k.dst with
  | none => b
  | some dst =>
    if dst = src ∧ 0 ≤ k.derefs then b
    else if (b.graph.loc dst).escapes ∧ k.derefs < 0 then
      let b :=
        if notes && !(b.graph.loc src).escapes then
          { b with graph := b.graph.explain src [⟨dst, src, k.derefs, k.notes⟩] }
        else b
      b.update src fun l => { l with attrs := l.attrs.union .all }
    else
      b.update dst fun l =>
        { l with edges := l.edges ++ [⟨src, k.derefs, if notes then k.notes else []⟩] }

end BatchGraph

namespace Build

/-! ## Locations -/

def newLoc (l : Location) : Build LocId :=
  modifyGet fun b => (b.graph.size, { b with graph := b.graph.push l })

def newTemp (pl : Place) (persists : Bool) : Build LocId :=
  newLoc (.temp (some pl.func) pl.depth persists)

def varLoc (v : VarId) : Build LocId := do
  match (← get).varLoc? v with
  | some l => pure l
  | none => throw (.unknownVariable v)

def function (s : Scene) (f : FuncId) : Build Function :=
  match s.program.function? f with
  | some decl => pure decl
  | none => throw (.unknownFunction f)

def isGlobal (s : Scene) (v : VarId) : Build Bool :=
  match s.program.var? v with
  | some decl => pure decl.isGlobal
  | none => throw (.unknownVariable v)

/-- Gives variable `v` of function `f` a location; `role` says what it is to the function. -/
def declareVar (s : Scene) (f : FuncId) (role : Location → Location) (v : VarId) : Build Unit := do
  if ((← get).varLoc? v).isSome then throw (.duplicateLocation (s.program.varName v))
  let l ← newLoc (role {
    owner := .site (.var v)
    func := some f
    attrs := .ofAttr .persists
    reassigned := s.reassigned.contains v
    addrTaken := s.addrTaken.contains v })
  modify fun b => { b with vars := (v, l) :: b.vars }

/-- Gives every variable that a function declares a location. -/
def declare (s : Scene) (f : Function) : Build Unit := do
  f.params.forM (declareVar s f.id fun l => { l with isParam := true })
  f.results.zipIdx.forM fun r => declareVar s f.id (fun l => { l with result := some r.2 }) r.1
  f.locals.forM (declareVar s f.id id)

/-- The location of a global, made when it is first stored to. -/
def globalLoc (v : VarId) : Build LocId := do
  match (← get).varLoc? v with
  | some l => pure l
  | none =>
    let l ← newLoc { owner := .site (.var v), isGlobal := true, attrs := .all }
    modify fun b => { b with vars := (v, l) :: b.vars }
    pure l

/-- The location of an allocation; each may be evaluated once only. -/
def siteLoc (s : Scene) (pl : Place) (site : SiteId) : Build LocId := do
  if (s.program.site? site).isNone then throw (.invalidSite site)
  if ((← get).siteLoc? site).isSome then throw (.duplicateLocation (Site.alloc site).text)
  let l ← newLoc { owner := .site (.alloc site), func := some pl.func, loopDepth := pl.depth }
  modify fun b => { b with sites := (site, l) :: b.sites }
  pure l

/-! ## Holes -/

def note (s : Scene) (why : String) (k : Hole) : Hole := if s.notes then k.note why none else k

def flow (s : Scene) (k : Hole) (src : LocId) : Build Unit :=
  modify (BatchGraph.flow s.notes k src)

/-- New storage whose address flows into `k`; gives the hole for its contents. -/
def spill (s : Scene) (pl : Place) (k : Hole) (site : SiteId) : Build Hole := do
  let l ← siteLoc s pl site
  flow s (note s "spill" (← k.addr)) l
  pure (.ofLoc l)

/-- A value built in place that flows into `k` itself; gives the hole for its contents. -/
def aggregate (s : Scene) (pl : Place) (k : Hole) (site : SiteId) : Build Hole := do
  let l ← siteLoc s pl site
  flow s k l
  pure (.ofLoc l)

/-- A temporary that is kept until the function ends and then flows into `k`. -/
def later (s : Scene) (pl : Place) (k : Hole) : Build Hole := do
  let l ← newTemp pl true
  flow s k l
  pure (.ofLoc l)

/-- One hole that leads to all of `ks`. -/
def tee (s : Scene) (pl : Place) : List Hole → Build Hole
  | [] => pure .discard
  | [k] => pure k
  | ks => do
    let l ← newTemp pl false
    ks.forM fun k => do
      if k.derefs < 0 then throw (.internal .teeOfAddress)
      flow s k l
    pure (.ofLoc l)

/-- The holes to which a parameter with the given leaks leads, if the results of the call go
to `ks`. -/
def leakHoles (leaks : Leaks) (ks : Option (List Hole)) : Except Error (List Hole) := do
  let toSink (l : LocId) (d : Option Nat) : Except Error (List Hole) :=
    match d with
    | none => pure []
    | some d => do return [← (Hole.ofLoc l).shift d]
  let toResult (i : Nat) : Except Error (List Hole) :=
    match leaks.get? (.result i), (ks.getD [])[i]? with
    | some d, some k => do return [← k.shift d]
    | _, _ => pure []
  let heap ← toSink heapId (leaks.get? .heap)
  let mutator ← toSink mutatorId (leaks.get? .mutator)
  let callee ← toSink calleeId (leaks.get? .callee)
  let results ← (List.range Sink.trackedResults).mapM toResult
  return heap ++ (mutator ++ (callee ++ results.flatten))

/-- The hole for argument `i` of a call. -/
def paramHole (s : Scene) (pl : Place) (ks : Option (List Hole)) (callee : Option FuncId)
    (i : Nat) : Build Hole :=
  match callee with
  | none => pure (.ofLoc heapId)
  | some f =>
    if s.members.contains f then
      if s.precise then do
        match (← function s f).params[i]? with
        | some v => pure (.ofLoc (← varLoc v))
        | none => pure (.ofLoc heapId)
      else pure (.ofLoc heapId)
    else
      match (s.summary? f).bind (·.params[i]?) with
      | none => pure (.ofLoc heapId)
      | some leaks => do tee s pl (← leakHoles leaks ks)

/-! ## Calls -/

/-- Leads the results of a function of the batch into the holes for them. -/
def wireResults (s : Scene) (ks : Option (List Hole)) (callee : Option FuncId) : Build Unit :=
  match ks, callee with
  | some ks, some f =>
    if s.precise && s.members.contains f then do
      let decl ← function s f
      (decl.results.zip ks).forM fun rk => do
        flow s (note s "call result" rk.2) (← varLoc rk.1)
    else pure ()
  | _, _ => pure ()

/-- The hole for the function value that is called. -/
def calleeHole (s : Scene) (pl : Place) (mode : CallMode) (callee : Expr) : Build Hole :=
  match mode with
  | .spawned => pure (.ofLoc heapId)
  | .deferred => later s pl .discard
  | .plain => pure (if callee.staticCallee.isSome then .discard else .ofLoc calleeId)

/-- The hole for argument `i`, as `mode` has it. -/
def argHole (s : Scene) (pl : Place) (mode : CallMode) (ks : Option (List Hole))
    (callee : Option FuncId) (i : Nat) : Build Hole :=
  match mode with
  | .spawned => pure (.ofLoc heapId)
  | .deferred => do later s pl (← paramHole s pl ks callee i)
  | .plain => paramHole s pl ks callee i

/-! ## Expressions -/

/-- Whether the value is a header that refers to storage of its own, so that a pointer to it
needs a cell. -/
def needsCell : Expr → Bool
  | .composite .slice _ _ | .mapLit _ _ => true
  | _ => false

def elementNote : CompositeKind → String
  | .slice => "slice-literal-element"
  | .array => "array literal element"
  | .struct => "struct literal element"

def compositeHole (s : Scene) (pl : Place) (k : Hole) (site : SiteId) : CompositeKind → Build Hole
  | .slice => spill s pl k site
  | .array | .struct => aggregate s pl k site

/-- A captured variable flows into its closure, by value if nothing changes it later and by
address otherwise. -/
def capture (s : Scene) (k : Hole) (v : VarId) : Build Unit := do
  if !(← isGlobal s v) then
    let l ← varLoc v
    modify (·.update l fun x => { x with captured := true })
    let k ← if s.reassigned.contains v || s.addrTaken.contains v then k.addr else pure k
    flow s (note s "captured by a closure" k) l

mutual

/-- Evaluates an expression into the hole `k`. -/
def value (s : Scene) (pl : Place) (k : Hole) : Expr → Build Unit
  | .ident v => do
    if !(← isGlobal s v) then flow s k (← varLoc v)
  | .literal _ => pure ()
  | .funcRef _ => pure ()
  | .addrOf e =>
    if needsCell e then do
      let cell ← newTemp pl false
      flow s (note s "pointer literal" (← k.addr)) cell
      value s pl (.ofLoc cell) e
    else do
      value s pl (note s "address-of" (← k.addr)) e
  | .deref e => do value s pl (note s "indirection" (← k.deref)) e
  | .field base _ => value s pl (note s "dot" k) base
  | .ptrField base _ => do value s pl (note s "dot of pointer" (← k.deref)) base
  | .index .array base i => do
    value s pl (note s "fixed-array-index-of" k) base
    value s pl .discard i
  | .index .slice base i => do
    value s pl (note s "dot of pointer" (← k.deref)) base
    value s pl .discard i
  | .index .map base i => do
    value s pl .discard base
    value s pl .discard i
  | .binary lhs rhs => do
    value s pl .discard lhs
    value s pl .discard rhs
  | .call callee args => do
    wireResults s (some [k]) callee.staticCallee
    let ck ← calleeHole s pl .plain callee
    value s pl (note s "callee operand" ck) callee
    arguments s pl .plain (some [k]) callee.staticCallee 0 args
  | .new site => do discard (spill s pl k site)
  | .composite kind site elems => do
    let inner ← compositeHole s pl k site kind
    elements s pl (note s (elementNote kind) inner) elems
  | .mapLit site entries => do
    discard (spill s pl k site)
    mapEntries s pl entries
  | .closure site f => do
    let inner ← spill s pl k site
    let decl ← function s f
    decl.captures.forM (capture s inner)

/-- Evaluates the arguments of a call from number `i` on. -/
def arguments (s : Scene) (pl : Place) (mode : CallMode) (ks : Option (List Hole))
    (callee : Option FuncId) (i : Nat) : List Expr → Build Unit
  | [] => pure ()
  | e :: es => do
    let k ← argHole s pl mode ks callee i
    value s pl (note s "call parameter" k) e
    arguments s pl mode ks callee (i + 1) es

/-- Evaluates every expression into the same hole. -/
def elements (s : Scene) (pl : Place) (k : Hole) : List Expr → Build Unit
  | [] => pure ()
  | e :: es => do
    value s pl k e
    elements s pl k es

/-- Keys and values of a map literal go to the heap. -/
def mapEntries (s : Scene) (pl : Place) : List (Expr × Expr) → Build Unit
  | [] => pure ()
  | (key, val) :: es => do
    value s pl (note s "map literal key" (.ofLoc heapId)) key
    value s pl (note s "map literal value" (.ofLoc heapId)) val
    mapEntries s pl es

end

def call (s : Scene) (pl : Place) (mode : CallMode) (ks : Option (List Hole)) (callee : Expr)
    (args : List Expr) : Build Unit := do
  wireResults s ks callee.staticCallee
  let ck ← calleeHole s pl mode callee
  value s pl (note s "callee operand" ck) callee
  arguments s pl mode ks callee.staticCallee 0 args

/-- Evaluates a pointer that is written through. -/
def mutate (s : Scene) (pl : Place) (e : Expr) : Build Unit :=
  value s pl (note s "mutate" (.ofLoc mutatorId)) e

/-- The hole for storing into what an expression designates. -/
def target (s : Scene) (pl : Place) : Expr → Build Hole
  | .ident v => do
    if ← isGlobal s v then return .ofLoc (← globalLoc v)
    return .ofLoc (← varLoc v)
  | .field base _ => target s pl base
  | .index .array base i => do
    value s pl .discard i
    target s pl base
  | .index .slice base i => do
    value s pl .discard i
    mutate s pl base
    return .ofLoc heapId
  | .index .map base i => do
    value s pl .discard base
    value s pl (note s "key of map put" (.ofLoc heapId)) i
    return .ofLoc heapId
  | .deref base => do
    mutate s pl base
    return .ofLoc heapId
  | .ptrField base _ => do
    mutate s pl base
    return .ofLoc heapId
  | e => throw (.malformed (.notAssignable e))

/-! ## Statements -/

def assignPairs (s : Scene) (pl : Place) (pairs : List (Expr × Expr)) : Build Unit :=
  pairs.forM fun pair => do
    let k ← target s pl pair.1
    value s pl (note s "assign" k) pair.2

/-- One call can give values to several targets; otherwise there is a value for each. -/
def assign (s : Scene) (pl : Place) (lhs rhs : List Expr) : Build Unit :=
  match rhs with
  | [.call callee args] =>
    if 1 < lhs.length then do
      let ks ← lhs.mapM (target s pl)
      call s pl .plain (some ks) callee args
    else pairwise
  | _ => pairwise
where
  pairwise : Build Unit :=
    if lhs.length = rhs.length then assignPairs s pl (lhs.zip rhs)
    else throw (.malformed (.assignCount rhs.length lhs.length))

/-- One call can give all results; otherwise values go to the results in order, and there may
be fewer. -/
def ret (s : Scene) (pl : Place) (values : List Expr) : Build Unit := do
  let decl ← function s pl.func
  match values with
  | [.call callee args] =>
    if 1 < decl.results.length then
      let ks ← decl.results.mapM fun r => return Hole.ofLoc (← varLoc r)
      call s pl .plain (some ks) callee args
    else each decl
  | _ => each decl
where
  each (decl : Function) : Build Unit :=
    if decl.results.length < values.length then
      throw (.malformed (.returnCount decl.name values.length decl.results.length))
    else
      (decl.results.zip values).forM fun rv => do
        let l ← varLoc rv.1
        value s pl (note s "return" (.ofLoc l)) rv.2

/-- A statement that runs a call later. -/
def spawn (s : Scene) (pl : Place) (mode : CallMode) : Expr → Build Unit
  | .call callee args => call s pl mode none callee args
  | e => throw (.malformed (.spawnOfNonCall e))

/-- The number of loops around what follows a statement in its list. -/
def depthAfter (looping : List LabelId) (depth : Nat) : Stmt → Nat
  | .label l => if l ∈ looping then depth + 1 else depth
  | _ => depth

mutual

def stmt (s : Scene) (looping : List LabelId) (pl : Place) : Stmt → Build Unit
  | .decl v init => do
    let l ← varLoc v
    modify (·.update l fun x => { x with loopDepth := pl.depth })
    match init with
    | none => pure ()
    | some e => value s pl (note s "assign" (.ofLoc l)) e
  | .assign lhs rhs => assign s pl lhs rhs
  | .expr (.call callee args) => call s pl .plain none callee args
  | .expr e => value s pl .discard e
  | .ifElse cond t e => do
    value s pl .discard cond
    stmts s looping pl t
    stmts s looping pl e
  | .loop cond body => do
    let inner : Place := ⟨pl.func, pl.depth + 1⟩
    match cond with
    | none => pure ()
    | some e => value s inner .discard e
    stmts s looping inner body
  | .block body => stmts s looping pl body
  | .ret values => ret s pl values
  | .label _ => pure ()
  | .goto _ => pure ()
  | .go e => spawn s pl .spawned e
  | .defer e => spawn s pl (if pl.depth = 0 then .deferred else .spawned) e

/-- Statements in order; a looping label counts as a loop around those after it. -/
def stmts (s : Scene) (looping : List LabelId) (pl : Place) : List Stmt → Build Unit
  | [] => pure ()
  | x :: xs => do
    stmt s looping pl x
    stmts s looping ⟨pl.func, depthAfter looping pl.depth x⟩ xs

end

def body (s : Scene) (f : Function) : Build Unit :=
  match f.body with
  | none => pure ()
  | some xs => stmts s (loopingLabels xs) ⟨f.id, 0⟩ xs

end Build

/-- What can be varied about building. -/
structure BuildOptions where
  precise : Bool := false
  notes : Bool := false
deriving DecidableEq, Inhabited

namespace BatchGraph

/-- The declarations of functions, all of which must be in the program. -/
def declarations (p : Program) (fs : List FuncId) : Except Error (List Function) :=
  fs.mapM fun f =>
    match p.function? f with
    | some decl => .ok decl
    | none => .error (.unknownFunction f)

def scene (p : Program) (fs : List FuncId) (summary? : FuncId → Option Summary)
    (o : BuildOptions) (decls : List Function) : Scene where
  program := p
  members := fs
  summary? := summary?
  precise := o.precise
  notes := o.notes
  reassigned := decls.flatMap fun f => (bodyStmts f.stmts).flatMap Stmt.assignedVars
  addrTaken := decls.flatMap fun f => (bodyExprs f.stmts).filterMap Expr.addressedVar

/-- The graph of the functions `fs`, against the summaries of others. -/
def build (p : Program) (fs : List FuncId) (summary? : FuncId → Option Summary)
    (o : BuildOptions) : Except Error BatchGraph := do
  let decls ← declarations p fs
  let s := scene p fs summary? o decls
  let run : Build Unit := do
    decls.forM (Build.declare s)
    decls.forM (Build.body s)
  return (← run.run {}).2

end BatchGraph

end EscapeFlow
