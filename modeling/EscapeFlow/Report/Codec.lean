import EscapeFlow.Doc.Pretty
import EscapeFlow.Program.Codec
import EscapeFlow.Report.Basic

/-!
# Reports as documents

Leaks are written in their own form.  A diagnostic without path has no field for it.
`Report.text` is the report as a text of its own.
-/

namespace EscapeFlow

open Doc

namespace Attrs

def ofDoc? (d : Doc) : Option Attrs := (d.nat? 8).map fun n => ⟨BitVec.ofNat 8 n⟩

def toDoc (a : Attrs) : Doc := .nat a.bits.toNat

end Attrs

namespace Sink

def ofDoc? (d : Doc) : Option Sink :=
  match d.word? with
  | some "heap" => some .heap
  | some "mutator" => some .mutator
  | some "callee" => some .callee
  | _ => do
    match ← d.choice? with
    | ("result", x) => return .result (← x.nat? 64)
    | _ => none

def toDoc : Sink → Doc
  | .heap => .str "heap"
  | .mutator => .str "mutator"
  | .callee => .str "callee"
  | .result i => .choice "result" (.nat i)

end Sink

namespace LeakTag

def ofDoc? (d : Doc) : Option LeakTag := do
  return { sink := ← d.required "kind" Sink.ofDoc?, derefs := ← d.required "derefs" (nat? 32) }

def toDoc (t : LeakTag) : Doc := .record [("kind", t.sink.toDoc), ("derefs", .nat t.derefs)]

end LeakTag

namespace Leaks

def ofDoc? (d : Doc) : Option Leaks := d.str?.bind fun s => (decode s).toOption

def toDoc (l : Leaks) : Doc := .str l.encode

end Leaks

namespace Summary

def ofDoc? (d : Doc) : Option Summary := do
  return {
    func := ← d.required "func" FuncId.ofDoc?
    params := ← d.required "params" (list? Leaks.ofDoc?) }

def toDoc (s : Summary) : Doc :=
  .record [("func", s.func.toDoc), ("params", Doc.ofList Leaks.toDoc s.params)]

end Summary

namespace Placement

def ofDoc? (d : Doc) : Option Placement := do
  match ← d.word? with
  | "stack" => some .stack
  | "heap" => some .heap
  | _ => none

def toDoc (p : Placement) : Doc := .str p.text

end Placement

namespace Decision

def ofDoc? (d : Doc) : Option Decision := do
  return {
    site := ← d.required "site" Site.ofDoc?
    func := ← d.optional "func" FuncId.ofDoc?
    placement := ← d.required "decision" Placement.ofDoc?
    attrs := ← d.required "attrs" Attrs.ofDoc?
    transient := ← d.required "transient" bool? }

def toDoc (x : Decision) : Doc := .record [
  ("site", x.site.toDoc),
  ("func", Doc.ofOption FuncId.toDoc x.func),
  ("decision", x.placement.toDoc),
  ("attrs", x.attrs.toDoc),
  ("transient", .bool x.transient)]

end Decision

namespace FlowStep

def ofDoc? (d : Doc) : Option FlowStep := do
  return {
    dst := ← d.required "dst" str?
    src := ← d.required "src" str?
    derefs := ← d.required "derefs" (int? 32)
    notes := ← d.required "notes" (list? str?) }

def toDoc (s : FlowStep) : Doc := .record [
  ("dst", .str s.dst),
  ("src", .str s.src),
  ("derefs", .int s.derefs),
  ("notes", Doc.ofList .str s.notes)]

end FlowStep

namespace Diagnostic

def ofDoc? (d : Doc) : Option Diagnostic := do
  return {
    func := ← d.optional "func" FuncId.ofDoc?
    site := ← d.optional "site" Site.ofDoc?
    message := ← d.required "message" str?
    path := ← d.withDefault "path" (list? FlowStep.ofDoc?) [] }

def toDoc (x : Diagnostic) : Doc := .record ([
  ("func", Doc.ofOption FuncId.toDoc x.func),
  ("site", Doc.ofOption Site.toDoc x.site),
  ("message", .str x.message)] ++
  (if x.path.isEmpty then [] else [("path", Doc.ofList FlowStep.toDoc x.path)]))

end Diagnostic

namespace Stats

def ofDoc? (d : Doc) : Option Stats := do
  return {
    functions := ← d.required "functions" (nat? 64)
    batches := ← d.required "batches" (nat? 64)
    recursiveBatches := ← d.required "recursive_batches" (nat? 64)
    waves := ← d.required "waves" (nat? 64)
    locations := ← d.required "locations" (nat? 64)
    edges := ← d.required "edges" (nat? 64)
    walks := ← d.required "walks" (nat? 64)
    heapSites := ← d.required "heap_sites" (nat? 64)
    stackSites := ← d.required "stack_sites" (nat? 64)
    limitHits := ← d.required "round_limit_hits" (nat? 64)
    durationMs := ← d.required "duration_ms" (nat? 64) }

/-- All counts but the time. -/
def countFields (s : Stats) : List (String × Doc) := [
  ("functions", .nat s.functions),
  ("batches", .nat s.batches),
  ("recursive_batches", .nat s.recursiveBatches),
  ("waves", .nat s.waves),
  ("locations", .nat s.locations),
  ("edges", .nat s.edges),
  ("walks", .nat s.walks),
  ("heap_sites", .nat s.heapSites),
  ("stack_sites", .nat s.stackSites),
  ("round_limit_hits", .nat s.limitHits)]

def toDoc (s : Stats) : Doc := .record (s.countFields ++ [("duration_ms", .nat s.durationMs)])

end Stats

namespace Report

def toDoc (r : Report) : Doc := .record [
  ("decisions", Doc.ofList Decision.toDoc r.decisions),
  ("summaries", Doc.ofList Summary.toDoc r.summaries.sorted),
  ("diagnostics", Doc.ofList Diagnostic.toDoc r.diagnostics),
  ("stats", r.stats.toDoc)]

def text (r : Report) : String := r.toDoc.pretty

end Report

end EscapeFlow
