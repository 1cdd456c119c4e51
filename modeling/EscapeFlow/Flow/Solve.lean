import EscapeFlow.Flow.Walk

/-!
# Solving a location graph

Every location is walked as a root, in the order of the graph, and again whenever it has
gained an attribute, the latest first, until nothing is left to walk.  Each walk takes one
root from the list and each new entry costs a missing attribute, so there are at most as many
walks as locations and missing attributes together.

A bound on the number of walks can be set.  When it is reached with roots left, every location
but the sinks is taken to escape.

`Graph.solve` adds dereferences as integers of 32 bits, and `Graph.solveWith` in any way.
-/

namespace EscapeFlow

structure SolveOptions where
  /-- The number of walks allowed; zero for no bound. -/
  maxWalks : Nat := 0
  /-- Whether to record why a location escapes. -/
  recordPaths : Bool := false
deriving DecidableEq, Inhabited

/-- A solved graph and how it came about. -/
structure Solution where
  graph : Graph
  walks : Nat
  /-- The number of roots left when the bound was reached. -/
  pending : Option Nat
  relaxed : List Relaxation

namespace Solution

def limitHit (s : Solution) : Bool := s.pending.isSome

end Solution

namespace Marks

/-- All locations but the sinks escape, and parameters leak to the heap. -/
def escapeAll (g : Graph) (m : Marks) : Marks where
  attrs := m.attrs.mapIdx fun i a => if isSinkId i then a else a.union .all
  leaks := m.leaks.mapIdx fun i l =>
    if !isSinkId i && (g.loc i).isParam then l.add .heap 0 else l
  paths := m.paths

end Marks

namespace Graph

/-- Walks the roots of `todo`, after `walks` walks before. -/
def drain (a : Adder) (p : Program) (g : Graph) (o : SolveOptions) (m : Marks)
    (todo : List LocId) (walks : Nat) (relaxed : List Relaxation) : Solution :=
  match todo with
  | [] => ⟨g.withMarks m, walks, none, relaxed.reverse⟩
  | root :: rest =>
    if 0 < o.maxWalks ∧ o.maxWalks ≤ walks then
      ⟨g.withMarks (m.escapeAll g), walks, some (rest.length + 1), relaxed.reverse⟩
    else
      drain a p g o ((Walk.start g root m rest relaxed).run a p g o.recordPaths root).marks
        ((Walk.start g root m rest relaxed).run a p g o.recordPaths root).todo (walks + 1)
        ((Walk.start g root m rest relaxed).run a p g o.recordPaths root).relaxed
termination_by todo.length + m.missing
decreasing_by
  have := Walk.potential_run_le a p g o.recordPaths root (Walk.start g root m rest relaxed)
  simp only [Walk.potential, Walk.start, List.length_cons] at this ⊢
  omega

/-- Walks until no location gains an attribute. -/
def solveWith (a : Adder) (p : Program) (o : SolveOptions) (g : Graph) : Solution :=
  g.drain a p o g.marks (List.range g.size) 0 []

def solve (p : Program) (o : SolveOptions) (g : Graph) : Solution := g.solveWith .int32 p o

end Graph

end EscapeFlow
