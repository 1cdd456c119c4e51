import EscapeFlow.Config.Basic
import EscapeFlow.Flow.Solve
import EscapeFlow.Log
import EscapeFlow.Report.Basic

/-!
# Escape analysis

A program is analysed wave by wave.  Each batch is built against the summaries of earlier
waves, solved, and put into decisions and summaries; the report takes these in batch by batch.
The batches of a wave do not see each other, so the order in which they are analysed does not
show in the report.  It can show in the error, if several of them fail at the same time.
-/

namespace EscapeFlow

/-- Everything known of an analysed batch. -/
structure BatchRun where
  batch : Batch
  built : BatchGraph
  solution : Solution
  output : BatchOutput

namespace BatchRun

/-- The graph after solving. -/
def solved (built : BatchGraph) (solution : Solution) : BatchGraph :=
  { built with graph := solution.graph }

/-- Builds, solves and reads off a batch. -/
def analyze (c : Config) (p : Program) (batch : Batch) (summary? : FuncId → Option Summary)
    (a : Adder := .exact) : Except Error BatchRun := do
  let record : Bool := 2 ≤ c.diagnosticLevel
  let built ← BatchGraph.build p batch.functions summary? ⟨c.preciseRecursiveCalls, record⟩
  let solution := built.graph.solveWith a p ⟨c.maxWalkRounds, record⟩
  let output := (solved built solution).output p batch c.diagnosticLevel
  return {
    batch := batch
    built := built
    solution := solution
    output := { output with
      stats := { output.stats with
        walks := solution.walks
        limitHits := if solution.limitHit then 1 else 0 } } }

end BatchRun

namespace Solution

/-- What solving reports under a bound on the number of walks. -/
def events (limit : Nat) (s : Solution) : List Event :=
  s.relaxed.map .relaxed ++ (s.pending.map (Event.limitReached limit)).toList

end Solution

namespace Diagnostic

def events (p : Program) (d : Diagnostic) : List Event :=
  .diagnosed ((d.func.map p.funcName).getD "<global>") d.message :: d.path.map .explained

end Diagnostic

namespace BatchRun

def events (c : Config) (p : Program) (r : BatchRun) : List Event :=
  .built r.batch.index r.built.graph.size r.built.graph.edgeCount ::
    (r.solution.events c.maxWalkRounds ++
      (r.output.diagnostics.flatMap (·.events p) ++
        [.batchDone r.batch.index (r.batch.roots.map p.funcName) r.batch.recursive r.output.stats]))

end BatchRun

/-- The members of a list with their positions, in the order in which they are done. -/
def byFinish {α : Type} (finish : Nat → Nat) (xs : List α) : List (α × Nat) :=
  xs.zipIdx.mergeSort fun x y => finish x.2 ≤ finish y.2

/-- Does a job for each member of a list, in the order in which the jobs are done.  The first that
fails ends it all.  The results are put back into the order of the list. -/
def Traced.inParallel {α β : Type} (finish : Nat → Nat) (job : α → Traced β) (xs : List α) :
    Traced (List β) := do
  let done ← (byFinish finish xs).mapM fun x => do
    let y ← job x.1
    return (x.2, y)
  return (done.mergeSort fun x y => x.1 ≤ y.1).map (·.2)

/-- What an analysis depends on besides its input. -/
structure Machine where
  /-- How dereferences are added up. -/
  adder : Adder := .exact
  /-- When the batch at a position of a wave is done, if the wave is shared out.  How many threads
  there are shows in these times only. -/
  finish : Nat → Nat → Nat := fun _ _ => 0

namespace Config

/-- Whether a wave of `n` batches is shared out. -/
def sharesOut (c : Config) (n : Nat) : Bool := c.enableParallel && c.parallelThreshold ≤ n

end Config

namespace Analysis

/-- Refuses a configuration that is out of bounds. -/
def checkConfig (c : Config) : Traced Unit :=
  match c.validate with
  | .ok _ => pure ()
  | .error fault => ⟨[.configRejected fault], .error (.config fault)⟩

def runBatch (m : Machine) (c : Config) (p : Program) (summary? : FuncId → Option Summary)
    (b : Batch) : Traced BatchOutput := do
  let r ← Traced.ofExcept (BatchRun.analyze c p b summary? m.adder)
  Traced.log (r.events c p)
  return r.output

/-- The outputs of a wave, whose batches are shared out or analysed in turn. -/
def outputs (m : Machine) (c : Config) (p : Program) (report : Report) (w : Nat × List Batch) :
    Traced (List BatchOutput) :=
  if c.sharesOut w.2.length then
    Traced.inParallel (m.finish w.1) (runBatch m c p report.summary?) w.2
  else w.2.mapM (runBatch m c p report.summary?)

/-- Analyses a wave against the summaries of the waves before it. -/
def runWave (m : Machine) (c : Config) (p : Program) (report : Report) (w : Nat × List Batch) :
    Traced Report := do
  let outputs ← outputs m c p report w
  Traced.log [.waveDone w.1 outputs.length]
  Traced.ofExcept (outputs.foldlM Report.merge report)

/-- The counts over the whole plan. -/
def planStats (p : Program) (plan : Plan) (s : Stats) : Stats :=
  { s with
    functions := p.functions.size
    batches := plan.batches.length
    recursiveBatches := plan.batches.countP (·.recursive)
    waves := plan.waveCount }

def planEvents (p : Program) (plan : Plan) : List Event := [
  .planned plan.calls.nodes.length plan.calls.edgeCount plan.batches.length plan.waveCount,
  .started p.functions.size plan.batches.length plan.waveCount]

/-- Analyses a whole program with a configuration that is known to be in bounds. -/
def runProgram (m : Machine) (c : Config) (p : Program) : Traced Report := do
  let plan := Plan.ofProgram p
  Traced.log (planEvents p plan)
  let report ← (plan.waves.zipIdx.map fun w => (w.2, w.1)).foldlM (runWave m c p) {}
  let decided := report.decideGlobals p.globals
  let done := { decided with stats := planStats p plan decided.stats }
  Traced.log [.finished done.stats]
  return done

end Analysis

/-- Checks the configuration and analyses the program. -/
def analyze (c : Config) (p : Program) (m : Machine := {}) : Traced Report := do
  Analysis.checkConfig c
  Analysis.runProgram m c p

end EscapeFlow
