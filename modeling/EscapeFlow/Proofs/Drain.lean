import EscapeFlow.Flow.Solve
import EscapeFlow.Proofs.RootWalk

/-!
# Walking roots in any order

`Drains` walks the roots of a list one after the other, in any order whatever, until none is
left; without a bound on the number of walks `Graph.drain` is one of these orders
(`drain_drains`).  What learning keeps is kept by all of them (`Drains.marks`), and at the end
every root has taught all there is:

    Drains a p g record m todo m' → ∀ r < g.size, Saturated p g m' r        (Drains.saturated)

where each location was on the list to begin with.  Where a flow path goes through locations
that escape, the last of them is a root that teaches no less (`knows_of_flowPath`).
-/

namespace EscapeFlow

/-- The marks `m'` that are left when the roots of `todo` are walked in some order. -/
inductive Drains (a : Adder) (p : Program) (g : Graph) (record : Bool) :
    Marks → List LocId → Marks → Prop
  | done (m : Marks) : Drains a p g record m [] m
  | walk {m m' : Marks} {todo : List LocId} {root : LocId} (relaxed : List Relaxation) :
      root ∈ todo →
      Drains a p g record
        ((Walk.start g root m (todo.erase root) relaxed).run a p g record root).marks
        ((Walk.start g root m (todo.erase root) relaxed).run a p g record root).todo m' →
      Drains a p g record m todo m'

/-- Without a bound, draining takes the latest root first. -/
theorem drain_drains (a : Adder) (p : Program) (g : Graph) (o : SolveOptions)
    (ho : o.maxWalks = 0) (m : Marks) (todo : List LocId) (walks : Nat)
    (relaxed : List Relaxation) :
    ∃ m', Drains a p g o.recordPaths m todo m' ∧
      (g.drain a p o m todo walks relaxed).graph = g.withMarks m' := by
  fun_induction Graph.drain a p g o m todo walks relaxed with
  | case1 m walks relaxed => exact ⟨m, .done m, rfl⟩
  | case2 m walks relaxed root rest hbound => omega
  | case3 m walks relaxed root rest hbound ih =>
    obtain ⟨m', hd, he⟩ := ih
    refine ⟨m', .walk relaxed List.mem_cons_self ?_, he⟩
    rw [List.erase_cons_head]
    exact hd

namespace Drains

variable {a : Adder} {p : Program} {g : Graph} {record : Bool}

/-- Only locations of the graph are put on the list. -/
theorem lt_of_mem_todo {m : Marks} {todo : List LocId} {root : LocId} (relaxed : List Relaxation)
    (hf : m.Fits g) (ht : ∀ r ∈ todo, r < g.size) (hroot : root ∈ todo) :
    ∀ x ∈ ((Walk.start g root m (todo.erase root) relaxed).run a p g record root).todo,
      x < g.size := by
  intro x hx
  have hrun := Walk.since_run a p g record root
    (Walk.since_start g root m (todo.erase root) relaxed hf (ht root hroot))
  rcases hrun.bounded x hx with hx | hx
  · exact ht x (List.mem_of_mem_erase hx)
  · exact hx

/-- What learning keeps, wherever `N` leads, is kept to the end. -/
theorem marks {m m' : Marks} {todo : List LocId} (h : Drains a p g record m todo m')
    (hf : m.Fits g) (ht : ∀ r ∈ todo, r < g.size) {N : LocId → LocId → Int → Prop}
    (hN : ∀ root, Walk.Carried a g root Set.univ (N root)) (P : Marks → Prop)
    (hP : ∀ (w : Walk) (root l : LocId) (d : Int), w.marks.Fits g → l < g.size →
      N root l d → P w.marks → P (w.learn p g record root l d).marks)
    (hm : P m) : P m' := by
  induction h with
  | done m => exact hm
  | @walk m m' todo root relaxed hroot _ ih =>
    have hr := ht root hroot
    have hs := Walk.since_start g root m (todo.erase root) relaxed hf hr
    have hrun := Walk.since_run a p g record root hs
    refine ih hrun.fits.marks (lt_of_mem_todo relaxed hf ht hroot) ?_
    exact Walk.marks_run a p g record root (hN root) hs
      (Walk.genuine_start g root m _ relaxed (hN root).zero hr) P (fun w l d => hP w root l d) hm

/-- What learning keeps in any case is kept to the end. -/
theorem marks_learn {m m' : Marks} {todo : List LocId} (h : Drains a p g record m todo m')
    (hf : m.Fits g) (ht : ∀ r ∈ todo, r < g.size) (P : Marks → Prop)
    (hP : ∀ (w : Walk) (root l : LocId) (d : Int), w.marks.Fits g → l < g.size →
      P w.marks → P (w.learn p g record root l d).marks)
    (hm : P m) : P m' :=
  h.marks hf ht (N := fun _ _ _ => True) (fun _ => ⟨trivial, fun _ _ _ _ _ _ => trivial⟩) P
    (fun w root l d hf hl _ => hP w root l d hf hl) hm

theorem fits {m m' : Marks} {todo : List LocId} (h : Drains a p g record m todo m')
    (hf : m.Fits g) (ht : ∀ r ∈ todo, r < g.size) : m'.Fits g :=
  h.marks_learn hf ht (·.Fits g) (fun w root l d hf hl _ => w.learn_fits p g record root l d hf hl)
    hf

theorem grows {m m' : Marks} {todo : List LocId} (h : Drains a p g record m todo m')
    (hf : m.Fits g) (ht : ∀ r ∈ todo, r < g.size) : m.Grows m' :=
  h.marks_learn hf ht (m.Grows ·)
    (fun w root l d hf hl hm => hm.trans (w.learn_grows p g record root l d hf hl)) (.refl m)

/-- A walk keeps it true that every root is still to be walked or has taught all there is. -/
theorem saturated_walk {m : Marks} {todo : List LocId} {root : LocId} (relaxed : List Relaxation)
    (hf : m.Fits g) (hr : root < g.size)
    (h : ∀ r, r < g.size → r ∈ todo ∨ Saturated p g m r) {r : LocId} (hlt : r < g.size) :
    r ∈ ((Walk.start g root m (todo.erase root) relaxed).run a p g record root).todo ∨
      Saturated p g
        ((Walk.start g root m (todo.erase root) relaxed).run a p g record root).marks r := by
  have hrun := Walk.since_run a p g record root
    (Walk.since_start g root m (todo.erase root) relaxed hf hr)
  by_cases hroot : r = root
  · subst hroot
    exact Walk.saturated_run a p g record r m _ relaxed hf hr
  · rcases h r hlt with hin | hsat
    · exact .inl (hrun.kept r ((List.mem_erase_of_ne hroot).2 hin))
    · rcases hrun.queued r with hsame | hin
      · exact .inr (hsat.grows hrun.grows hsame)
      · exact .inl hin

theorem saturated {m m' : Marks} {todo : List LocId} (h : Drains a p g record m todo m')
    (hf : m.Fits g) (ht : ∀ r ∈ todo, r < g.size)
    (hs : ∀ r, r < g.size → r ∈ todo ∨ Saturated p g m r) :
    ∀ r, r < g.size → Saturated p g m' r := by
  induction h with
  | done m =>
    intro r hr
    rcases hs r hr with hin | hsat
    · cases hin
    · exact hsat
  | @walk m m' todo root relaxed hroot _ ih =>
    have hr := ht root hroot
    have hrun := Walk.since_run a p g record root
      (Walk.since_start g root m (todo.erase root) relaxed hf hr)
    exact ih hrun.fits.marks (lt_of_mem_todo relaxed hf ht hroot)
      fun r hlt => saturated_walk relaxed hf hr hs hlt

end Drains

/-! ## Locations that escape -/

/-- A location that escapes has all four attributes. -/
def Marks.Full (m : Marks) : Prop := ∀ l, (m.attrsOf l).escapes = true → Attrs.all ≤ m.attrsOf l

theorem full_learn {p : Program} {g : Graph} {record : Bool} {w : Walk} {root l : LocId} {d : Int}
    (hf : w.marks.Fits g) (hl : l < g.size) (h : w.marks.Full) :
    (w.learn p g record root l d).marks.Full := by
  intro x hx
  have hla : l < w.marks.attrs.size := by rw [hf.attrs]; exact hl
  rcases w.learn_attrsOf p g record root l d hla x with he | ⟨-, -, he⟩
  · rw [he] at hx ⊢
    exact h x hx
  · rw [he] at hx ⊢
    rw [Attrs.escapes, Attrs.has_union, Bool.or_eq_true] at hx
    rcases hx with hx | hx
    · exact Attrs.le_trans (h x hx) (Attrs.le_union_left _ _)
    · exact Attrs.le_trans (all_le_of_escapes_learned p g _ root l d hx)
        (Attrs.le_union_right _ _)

theorem Drains.full {a : Adder} {p : Program} {g : Graph} {record : Bool} {m m' : Marks}
    {todo : List LocId} (h : Drains a p g record m todo m') (hf : m.Fits g)
    (ht : ∀ r ∈ todo, r < g.size) (hm : m.Full) : m'.Full :=
  h.marks_learn hf ht Marks.Full (fun _ _ _ _ hf hl => full_learn hf hl) hm

/-- Whatever flows into a root, by any path, knows what the root teaches; or it escapes; or it
knows what some location teaches that escapes. -/
theorem knows_of_flowPath {p : Program} {g : Graph} {m : Marks}
    (hs : ∀ r, r < g.size → Saturated p g m r) {r l : LocId} {d : Int} (hl : l < g.size)
    (h : FlowPath g Set.univ r l d) :
    Knows p g m r l d ∨ (m.attrsOf l).escapes = true ∨
      ∃ x, (m.attrsOf x).escapes = true ∧ Knows p g m x l d := by
  rcases h.last_outside m.open with h | h | ⟨x, d', hx, hd, h⟩
  · exact .inl (hs r (h.root_lt hl) l d hl h)
  · exact .inr (.inl (eq_true_of_ne_false h))
  · exact .inr (.inr ⟨x, eq_true_of_ne_false hx, (hs x (h.root_lt hl) l d' hl h).mono hd⟩)

end EscapeFlow
