import EscapeFlow.Flow.Solve
import Mathlib.Data.Int.LeastGreatest
import Mathlib.Order.Bounds.Defs

/-!
# Flow paths and distances

A flow path goes backwards from a root along the edges of a graph.  Its length is the number
of dereferences on the way, where the running number is brought up to zero before each edge is
added.  `via` are the sources that a path may pass; `Set.univ` for all of them.

    FlowPath g via root l d → ∃ n, n ≤ d ∧ Distance g via root l n      (FlowPath.exists_distance)

Numbers that are handed on along all edges are at most the lengths of the paths, whatever the order
in which they were handed on (`HandedOn.exists_le`).

A path that is cut at the last location outside `via` goes on from there at zero, and so gets
no longer (`FlowPath.last_outside`).  This is what a walk relies on when it leaves locations
that escape to walks of their own.
-/

namespace EscapeFlow

/-- `l` flows into `root` with length `d`, through sources in `via`. -/
inductive FlowPath (g : Graph) (via : Set LocId) (root : LocId) : LocId → Int → Prop
  | root : FlowPath g via root root 0
  | step {m : LocId} {d : Int} {e : Edge} : FlowPath g via root m d → e ∈ (g.loc m).edges →
      e.src ∈ via → FlowPath g via root e.src (max d 0 + e.derefs)

/-- The least length of a flow path from `l` into `root`. -/
def Distance (g : Graph) (via : Set LocId) (root l : LocId) (d : Int) : Prop :=
  IsLeast {n | FlowPath g via root l n} d

/-! ## Locations of a graph -/

theorem Graph.loc_of_lt (g : Graph) (l : LocId) (hl : l < g.size) : g.loc l = g.locs[l] := by
  unfold Graph.loc
  rw [Array.getD_eq_getD_getElem?, Array.getElem?_eq_getElem hl]
  rfl

theorem Graph.loc_of_le (g : Graph) (l : LocId) (hl : g.size ≤ l) :
    g.loc l = { owner := .temp } := by
  unfold Graph.loc
  rw [Array.getD_eq_getD_getElem?, Array.getElem?_eq_none hl]
  rfl

/-- Only locations of the graph have edges. -/
theorem Graph.lt_size_of_mem_edges {g : Graph} {l : LocId} {e : Edge}
    (he : e ∈ (g.loc l).edges) : l < g.size := by
  apply Nat.lt_of_not_le
  intro hl
  rw [g.loc_of_le l hl] at he
  cases he

/-! ## Lengths -/

theorem FlowPath.mono {g : Graph} {via via' : Set LocId} {root l : LocId} {d : Int}
    (hv : via ⊆ via') (h : FlowPath g via root l d) : FlowPath g via' root l d := by
  induction h with
  | root => exact .root
  | step _ he hs ih => exact .step ih he (hv hs)

theorem FlowPath.eq_root_or_mem {g : Graph} {via : Set LocId} {root l : LocId} {d : Int}
    (h : FlowPath g via root l d) : l = root ∨ l ∈ via := by
  cases h with
  | root => exact .inl rfl
  | step _ _ hs => exact .inr hs

/-- Where a path ends in the graph, it starts there. -/
theorem FlowPath.root_lt {g : Graph} {via : Set LocId} {root l : LocId} {d : Int}
    (h : FlowPath g via root l d) (hl : l < g.size) : root < g.size := by
  induction h with
  | root => exact hl
  | step _ he _ ih => exact ih (Graph.lt_size_of_mem_edges he)

theorem FlowPath.lowest_le {g : Graph} {via : Set LocId} {root l : LocId} {d : Int}
    (h : FlowPath g via root l d) : g.lowest ≤ d := by
  cases h with
  | root => exact (foldl_min_le _ 0).1
  | step _ he _ =>
    have := Graph.lowest_le he
    omega

/-- Lengths are bounded from below, even with cycles of negative weight, so there is a least
one wherever there is a path. -/
theorem FlowPath.exists_distance {g : Graph} {via : Set LocId} {root l : LocId} {d : Int}
    (h : FlowPath g via root l d) : ∃ n, n ≤ d ∧ Distance g via root l n := by
  obtain ⟨n, hn, hmin⟩ := Int.exists_least_of_bdd (P := fun n => FlowPath g via root l n)
    ⟨g.lowest, fun z hz => hz.lowest_le⟩ ⟨d, h⟩
  exact ⟨n, hmin d h, hn, fun z hz => hmin z hz⟩

theorem Distance.path {g : Graph} {via : Set LocId} {root l : LocId} {d : Int}
    (h : Distance g via root l d) : FlowPath g via root l d := h.1

/-- `root` has a number that is at most zero, and a location that a path may pass hands its number
on along its edges. -/
structure HandedOn (g : Graph) (via : Set LocId) (root : LocId) (num : LocId → Option Int) :
    Prop where
  zero : ∃ n, n ≤ 0 ∧ num root = some n
  step : ∀ l n, num l = some n → l = root ∨ l ∈ via → ∀ e ∈ (g.loc l).edges, e.src ∈ via →
    e.src < g.size → ∃ n', n' ≤ max n 0 + e.derefs ∧ num e.src = some n'

theorem HandedOn.exists_le {g : Graph} {via : Set LocId} {root : LocId} {num : LocId → Option Int}
    (h : HandedOn g via root num) {l : LocId} {d : Int} (hl : l < g.size)
    (hp : FlowPath g via root l d) : ∃ n, n ≤ d ∧ num l = some n := by
  induction hp with
  | root => exact h.zero
  | @step k c e hk he hsrc ih =>
    obtain ⟨n, hn, hnum⟩ := ih (Graph.lt_size_of_mem_edges he)
    obtain ⟨n', hn', hnum'⟩ := h.step k n hnum hk.eq_root_or_mem e he hsrc hl
    exact ⟨n', by omega, hnum'⟩

/-- A path either keeps to `via`, or ends outside, or goes on from its last location outside
`via` without being longer. -/
theorem FlowPath.last_outside {g : Graph} (via : Set LocId) {root l : LocId} {d : Int}
    (h : FlowPath g Set.univ root l d) :
    FlowPath g via root l d ∨ l ∉ via ∨ ∃ x d', x ∉ via ∧ d' ≤ d ∧ FlowPath g via x l d' := by
  induction h with
  | root => exact .inl .root
  | @step m d e _ he _ ih =>
    by_cases hs : e.src ∈ via
    · rcases ih with ih | ih | ⟨x, d', hx, hd, ih⟩
      · exact .inl (.step ih he hs)
      · -- the path leaves `via` at `m`, and `m` is the new root
        refine .inr (.inr ⟨m, max 0 0 + e.derefs, ih, by omega, .step .root he hs⟩)
      · exact .inr (.inr ⟨x, _, hx, by omega, .step ih he hs⟩)
    · exact .inr (.inl hs)

end EscapeFlow
