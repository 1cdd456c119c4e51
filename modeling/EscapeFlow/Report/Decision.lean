import EscapeFlow.Flow.Attrs
import EscapeFlow.Program.Id
import EscapeFlow.Text.OneLine

/-!
# Decisions, diagnostics and counts
-/

namespace EscapeFlow

/-- Where storage is put. -/
inductive Placement where
  | stack
  | heap
deriving DecidableEq, Inhabited

def Placement.text : Placement → String
  | .stack => "stack"
  | .heap => "heap"

structure Decision where
  site : Site
  func : Option FuncId
  placement : Placement
  attrs : Attrs
  /-- On the stack, and of no use once the statement that made it is done. -/
  transient : Bool
deriving DecidableEq, Inhabited

def Decision.isHeap (d : Decision) : Bool := d.placement = .heap

/-- One step of a flow path in words: `dst` takes `src`, its address or what it points to. -/
structure FlowStep where
  dst : String
  src : String
  derefs : Int
  notes : List String
deriving DecidableEq, Inhabited

namespace FlowStep

/-- The operator in front of the source: `&` for its address, a `*` for each dereference. -/
def sigil (derefs : Int) : String :=
  if derefs < 0 then "&" else String.ofList (List.replicate derefs.toNat '*')

def text (s : FlowStep) : String :=
  s!"flow: {s.dst} = " ++ sigil s.derefs ++ s.src ++
    (if s.notes.isEmpty then "" else ": " ++ Text.separated ", " s.notes)

end FlowStep

structure Diagnostic where
  func : Option FuncId
  site : Option Site
  message : String
  /-- The flow that made the site escape. -/
  path : List FlowStep
deriving DecidableEq, Inhabited

/-- Counts over a batch or a whole analysis. -/
structure Stats where
  functions : Nat := 0
  batches : Nat := 0
  recursiveBatches : Nat := 0
  waves : Nat := 0
  locations : Nat := 0
  edges : Nat := 0
  walks : Nat := 0
  heapSites : Nat := 0
  stackSites : Nat := 0
  limitHits : Nat := 0
  durationMs : Nat := 0
deriving DecidableEq, Inhabited

/-- Adds what is counted in each batch; the counts over the whole plan are left alone. -/
def Stats.merge (s t : Stats) : Stats :=
  { s with
    locations := s.locations + t.locations
    edges := s.edges + t.edges
    walks := s.walks + t.walks
    heapSites := s.heapSites + t.heapSites
    stackSites := s.stackSites + t.stackSites
    limitHits := s.limitHits + t.limitHits }

end EscapeFlow
