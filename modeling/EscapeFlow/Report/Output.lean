import EscapeFlow.Flow.Build
import EscapeFlow.Report.Decision
import EscapeFlow.Schedule.Plan

/-!
# The output of a batch

What a solved graph says: a decision for each variable and allocation, a summary for each
function, and on request the same in words.
-/

namespace EscapeFlow

structure BatchOutput where
  batch : Nat
  decisions : List Decision
  summaries : List Summary
  diagnostics : List Diagnostic
  stats : Stats
deriving DecidableEq, Inhabited

namespace Location

def placement (l : Location) : Placement := if l.escapes then .heap else .stack

/-- The site that a decision is made for.  Globals are decided once for the whole program. -/
def decided? (l : Location) : Option Site := if l.isGlobal then none else l.site?

/-- The decision for the storage of a location. -/
def decision (l : Location) (site : Site) : Decision where
  site := site
  func := l.func
  placement := l.placement
  attrs := l.attrs
  transient :=
    match site with
    | .var _ => false
    | .alloc _ => l.placement = .stack && !l.attrs.persists

end Location

namespace BatchGraph

/-- The decisions, in the order of the locations. -/
def decisions (b : BatchGraph) : List Decision :=
  b.graph.locs.toList.filterMap fun l => l.decided?.map l.decision

/-- The leaks of a parameter as callers see them.  Nothing is known of a function without
body, so its parameters leak unless it is marked otherwise. -/
def paramLeaks (b : BatchGraph) (decl : Function) (v : VarId) : Leaks :=
  if decl.isExternal then (if decl.noescape then .empty else .toHeap)
  else
    match b.varLoc? v with
    | some l => (b.graph.loc l).leaks.optimize
    | none => .empty

def summarize (b : BatchGraph) (decl : Function) : Summary :=
  ⟨decl.id, decl.params.map (b.paramLeaks decl)⟩

/-! ## In words -/

/-- What an allocation makes. -/
def allocKind (p : Program) (s : SiteId) (unknown : String) : String :=
  match p.site? s with
  | some info => info.kind.describe
  | none => unknown

/-- The name of a location in a flow path. -/
def describe (p : Program) (b : BatchGraph) (l : LocId) : String :=
  match (b.graph.loc l).owner with
  | .site (.var v) => p.varName v
  | .site (.alloc s) => allocKind p s (Site.alloc s).text
  | .heap => "\x7bheap\x7d"
  | .mutator => "\x7bmutator\x7d"
  | .callee => "\x7bcallee\x7d"
  | .temp => "\x7btemp\x7d"

def flowStep (p : Program) (b : BatchGraph) (h : Hop) : FlowStep where
  dst := b.describe p h.dst
  src := b.describe p h.src
  derefs := h.derefs
  notes := h.notes.map (·.why)

def decisionMessage (p : Program) : Site → Placement → Option String
  | .var v, .heap => some ("moved to heap: " ++ p.varName v)
  | .var _, .stack => none
  | .alloc s, .heap => some (allocKind p s "allocation" ++ " escapes to heap")
  | .alloc s, .stack => some (allocKind p s "allocation" ++ " does not escape")

/-- The path of a location that is on the heap, from level 2 on. -/
def explanation (p : Program) (level : Nat) (b : BatchGraph) (l : LocId) (x : Location) :
    List FlowStep :=
  if x.placement = .heap ∧ 2 ≤ level then ((b.graph.path? l).getD []).map (b.flowStep p) else []

def decisionDiagnostic (p : Program) (level : Nat) (b : BatchGraph) (l : LocId) (x : Location) :
    Option Diagnostic := do
  let site ← x.decided?
  let message ← decisionMessage p site x.placement
  return ⟨x.func, some site, message, b.explanation p level l x⟩

def leakMessage (p : Program) (decl : Function) (name : String) (t : LeakTag) : String :=
  match t.sink with
  | .heap => if t.derefs = 0 then s!"leaking param: {name}" else s!"leaking param content: {name}"
  | .result i =>
    let result :=
      match decl.results[i]? with
      | some r => p.varName r
      | none => s!"~r{i}"
    s!"leaking param: {name} to result {result} level={t.derefs}"
  | .mutator => s!"mutates param: {name} derefs={t.derefs}"
  | .callee => s!"calls param: {name} derefs={t.derefs}"

def leakMessages (p : Program) (decl : Function) (v : VarId) (leaks : Leaks) : List String :=
  if leaks.isEmpty then [p.varName v ++ " does not escape"]
  else leaks.tags.map (leakMessage p decl (p.varName v))

def leakDiagnostics (p : Program) (decl : Function) (s : Summary) : List Diagnostic :=
  (decl.params.zip s.params).flatMap fun x =>
    (leakMessages p decl x.1 x.2).map fun message => ⟨some decl.id, some (.var x.1), message, []⟩

/-- From level 1 on: first the decisions, then the leaks of each function. -/
def diagnostics (p : Program) (level : Nat) (b : BatchGraph) (decls : List Function) :
    List Diagnostic :=
  if level = 0 then []
  else
    (b.graph.locs.toList.zipIdx.filterMap fun x => b.decisionDiagnostic p level x.2 x.1) ++
      decls.flatMap fun decl => leakDiagnostics p decl (b.summarize decl)

def output (p : Program) (batch : Batch) (level : Nat) (b : BatchGraph) : BatchOutput :=
  let decls := batch.functions.filterMap p.function?
  let decisions := b.decisions
  { batch := batch.index
    decisions := decisions
    summaries := decls.map b.summarize
    diagnostics := b.diagnostics p level decls
    stats := {
      locations := b.graph.size
      edges := b.graph.edgeCount
      heapSites := decisions.countP (·.isHeap)
      stackSites := decisions.countP (!·.isHeap) } }

end BatchGraph

end EscapeFlow
