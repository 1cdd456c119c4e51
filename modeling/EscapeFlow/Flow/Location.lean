import EscapeFlow.Flow.Attrs
import EscapeFlow.Flow.Leaks
import EscapeFlow.Program.Basic
import EscapeFlow.Total

/-!
# Location graphs

A location is a piece of storage: a variable, an allocation, a temporary or one of the three
sinks.  An edge stands at its destination and says that the value of `src`, after `derefs`
dereferences, flows into it; `-1` means that the address of `src` does.

The sinks come first in every graph: `heapId` for storage that outlives everything,
`mutatorId` for what is written through a pointer, `calleeId` for what is called.
-/

namespace EscapeFlow

/-- The position of a location in its graph. -/
abbrev LocId := Nat

/-- A remark on why a value flows. -/
structure Note where
  why : String
  site : Option Site := none
deriving DecidableEq, Inhabited

structure Edge where
  src : LocId
  /-- A weight of any size.  Those of 32 bits are added up as such by `Adder.int32`. -/
  derefs : Int
  notes : List Note := []
deriving DecidableEq, Inhabited

/-- One edge of a flow path, with both its ends. -/
structure Hop where
  dst : LocId
  src : LocId
  derefs : Int
  notes : List Note
deriving DecidableEq, Inhabited

/-- What a location is the storage of. -/
inductive Owner where
  | site (s : Site)
  | heap
  | mutator
  | callee
  | temp
deriving DecidableEq, Inhabited

namespace Owner

def site? : Owner → Option Site
  | .site s => some s
  | _ => none

end Owner

structure Location where
  owner : Owner
  func : Option FuncId := none
  loopDepth : Nat := 0
  attrs : Attrs := .empty
  isParam : Bool := false
  /-- The position of a result among those of its function. -/
  result : Option Nat := none
  isGlobal : Bool := false
  captured : Bool := false
  reassigned : Bool := false
  addrTaken : Bool := false
  edges : List Edge := []
  leaks : Leaks := .empty
deriving DecidableEq, Inhabited

namespace Location

def site? (l : Location) : Option Site := l.owner.site?

def escapes (l : Location) : Bool := l.attrs.escapes

/-- A temporary inside a function. -/
def temp (func : Option FuncId) (loopDepth : Nat) (persists : Bool) : Location where
  owner := .temp
  func := func
  loopDepth := loopDepth
  attrs := if persists then .ofAttr .persists else .empty

end Location

def heapId : LocId := 0

def mutatorId : LocId := 1

def calleeId : LocId := 2

def isSinkId (l : LocId) : Bool := l < 3

/-- Locations, and for some of them the flow path that made them escape. -/
structure Graph where
  locs : Array Location
  paths : List (LocId × List Hop) := []
deriving DecidableEq

namespace Graph

/-- The graph of the three sinks. -/
def sinks : Graph where
  locs := #[
    { owner := .heap, attrs := .all },
    { owner := .mutator, attrs := .ofAttr .mutates },
    { owner := .callee, attrs := .ofAttr .calls }]

instance : Inhabited Graph := ⟨sinks⟩

def size (g : Graph) : Nat := g.locs.size

def loc (g : Graph) (l : LocId) : Location := g.locs.getD l { owner := .temp }

def push (g : Graph) (l : Location) : Graph := { g with locs := g.locs.push l }

def update (g : Graph) (l : LocId) (f : Location → Location) : Graph :=
  { g with locs := g.locs.modify l f }

def edgeCount (g : Graph) : Nat := total (·.edges.length) g.locs.toList

def path? (g : Graph) (l : LocId) : Option (List Hop) := g.paths.lookup l

/-- Keeps the first path that is recorded for a location. -/
def explain (g : Graph) (l : LocId) (hops : List Hop) : Graph :=
  if (g.path? l).isSome then g else { g with paths := g.paths ++ [(l, hops)] }

end Graph

end EscapeFlow
