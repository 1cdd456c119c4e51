import EscapeFlow.Report.Output

/-!
# Reports

The result of an analysis.  Decisions are kept by site; a later decision for a site takes the
place of an earlier one.
-/

namespace EscapeFlow

structure Report where
  /-- In the order of the sites, none twice. -/
  decisions : List Decision := []
  summaries : SummaryStore := {}
  diagnostics : List Diagnostic := []
  stats : Stats := {}
deriving DecidableEq, Inhabited

namespace Report

def insertDecision (d : Decision) : List Decision → List Decision
  | [] => [d]
  | e :: rest =>
    if e.site = d.site then d :: rest
    else if d.site.le e.site then d :: e :: rest
    else e :: insertDecision d rest

def put (r : Report) (d : Decision) : Report :=
  { r with decisions := insertDecision d r.decisions }

def decision? (r : Report) (site : Site) : Option Decision :=
  r.decisions.find? (·.site = site)

def isHeap (r : Report) (site : Site) : Bool := (r.decision? site).any (·.isHeap)

def summary? (r : Report) (f : FuncId) : Option Summary := r.summaries.get? f

def messages (r : Report) : List String := r.diagnostics.map (·.message)

/-- Takes in the output of a batch; a function may be summarised once only. -/
def merge (r : Report) (out : BatchOutput) : Except Error Report := do
  let decided := out.decisions.foldl put r
  let summaries ← r.summaries.insertAll out.summaries
  return { decided with
    summaries := summaries
    diagnostics := r.diagnostics ++ out.diagnostics
    stats := r.stats.merge out.stats }

/-- Globals are always on the heap. -/
def globalDecision (v : Variable) : Decision where
  site := .var v.id
  func := none
  placement := .heap
  attrs := .all
  transient := false

def decideGlobals (r : Report) (globals : List Variable) : Report :=
  let decided := globals.foldl (fun r v => r.put (globalDecision v)) r
  { decided with stats := { r.stats with heapSites := r.stats.heapSites + globals.length } }

end Report

end EscapeFlow
