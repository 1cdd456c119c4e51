import EscapeFlow.Schedule.CallGraph
import EscapeFlow.Schedule.LowLink

/-!
# Batches and waves

Functions that refer to each other are analysed together, in a batch that also takes in their
closures.  Batches are in an order in which each comes after the batches it refers to.  A wave
is a set of batches that refer to earlier waves only.
-/

namespace EscapeFlow

structure Batch where
  /-- The position in the plan. -/
  index : Nat
  /-- The top-level functions, by number. -/
  roots : List FuncId
  /-- The roots, then their closures. -/
  functions : List FuncId
  /-- There are several roots, or the only one refers to itself. -/
  recursive : Bool
  wave : Nat
deriving DecidableEq, Inhabited

structure Plan where
  calls : CallGraph
  batches : List Batch

namespace Plan

/-- The wave after those of all placed batches that the functions refer to. -/
def waveOf (calls : CallGraph) (placed : List Batch) (roots : List FuncId) : Nat :=
  ((roots.flatMap calls.callees).map fun f =>
    match placed.find? (·.roots.contains f) with
    | some b => b.wave + 1
    | none => 0).foldl max 0

def isRecursive (calls : CallGraph) : List FuncId → Bool
  | [f] => (calls.callees f).contains f
  | _ => true

/-- Adds the batch of a component to those before it. -/
def place (p : Program) (calls : CallGraph) (placed : List Batch) (component : List FuncId) :
    List Batch :=
  let roots := component.mergeSort fun f g => f.index ≤ g.index
  placed ++ [{
    index := placed.length
    roots := roots
    functions := roots ++ roots.flatMap p.nestedClosures
    recursive := isRecursive calls roots
    wave := waveOf calls placed roots }]

def ofProgram (p : Program) : Plan :=
  let calls := CallGraph.ofProgram p
  let components := Schedule.components calls.callees calls.vertices calls.nodes
  ⟨calls, components.foldl (place p calls) []⟩

def waveCount (plan : Plan) : Nat := (plan.batches.map (·.wave + 1)).foldl max 0

/-- The batches of wave `w`, in order. -/
def wave (plan : Plan) (w : Nat) : List Batch := plan.batches.filter (·.wave = w)

def waves (plan : Plan) : List (List Batch) := (List.range plan.waveCount).map plan.wave

/-- The first batch that holds a function. -/
def batchOf? (plan : Plan) (f : FuncId) : Option Batch :=
  plan.batches.find? (·.functions.contains f)

end Plan

end EscapeFlow
