import EscapeFlow.Proofs.WellFormed

/-!
# How many walks there are

`Walk.Turn` is one turn of a walk, `Rounds n` are `n` walks of the roots that are left, one after
the other.  A walk has no infinite sequence of turns, whatever the weights, and every graph is
solved after a number of rounds that is linear in its size: each location is walked once, and each
walk after that is paid for by an attribute that was missing.  None of this depends on how weights
are added.

    WellFounded fun w' w => w.Turn a p g record root w'
    g.size ≤ (g.solve p ⟨0, record⟩).walks ≤ g.size + missing attributes ≤ 5 * g.size   (solve_ends)

A bound on the number of walks does not show as long as it is not less than this number.  Where it
is, the solve stops after exactly as many walks, and everything but the sinks escapes
(`solve_limited`).
-/

namespace EscapeFlow

/-! ## Turns of a walk -/

/-- A location is taken from the stack and handled. -/
inductive Walk.Turn (a : Adder) (p : Program) (g : Graph) (record : Bool) (root : LocId) :
    Walk → Walk → Prop
  | pop {w : Walk} {l : LocId} {rest : List LocId} : w.stack = l :: rest →
      Turn a p g record root w (step a p g record root { w with stack := rest } l)

namespace Walk

section Turns

variable (a : Adder) (p : Program) (g : Graph) (record : Bool) (root : LocId)

/-- From no walk do turns go on forever. -/
theorem turn_wellFounded : WellFounded fun w' w => Turn a p g record root w w' := by
  refine ⟨fun w => ?_⟩
  fun_induction run a p g record root w with
  | case1 w hs =>
    refine ⟨w, ?_⟩
    rintro w' ⟨hpop⟩
    simp [hs] at hpop
  | case2 w l rest hs ih =>
    refine ⟨w, ?_⟩
    rintro w' ⟨hpop⟩
    -- there is one location on top of the stack, so one turn only
    rw [hs] at hpop
    cases hpop
    exact ih

/-- Turns lead from a walk to where it ends. -/
theorem run_turns (w : Walk) :
    Relation.ReflTransGen (Turn a p g record root) w (w.run a p g record root) := by
  fun_induction run a p g record root w with
  | case1 w hs => exact .refl
  | case2 w l rest hs ih => exact .head (.pop hs) ih

/-! ## Roots that are left -/

theorem length_todo_le_learn (w : Walk) (l : LocId) (d : Int) :
    w.todo.length ≤ (w.learn p g record root l d).todo.length := by
  unfold learn
  dsimp only
  split
  · show w.todo.length ≤ (w.todo.insert l).length
    rw [List.length_insert]
    split <;> omega
  · exact Nat.le_refl _

theorem length_todo_le_step (w : Walk) (l : LocId) :
    w.todo.length ≤ (w.step a p g record root l).todo.length := by
  unfold step
  split
  · exact Nat.le_refl _
  · next v _ =>
    have hlearn := length_todo_le_learn p g record root w l v.derefs
    split
    · exact hlearn
    · have hrelax := (relaxes_foldl (a := a) (d := v.derefs) (g.loc l).edges (fun _ h => h)
        (w.learn p g record root l v.derefs)).1
      rw [hrelax.todo]
      exact hlearn

/-- A walk takes no root from the list. -/
theorem length_todo_le_run (w : Walk) :
    w.todo.length ≤ (w.run a p g record root).todo.length := by
  refine run_induct a p g record root (fun w' => w.todo.length ≤ w'.todo.length) ?_ w
    (Nat.le_refl _)
  intro w' l rest _ h
  have hstep := length_todo_le_step a p g record root { w' with stack := rest } l
  exact Nat.le_trans h hstep

end Turns

end Walk

/-! ## Rounds -/

/-- How far solving has come: the marks, the roots that are left and what was relaxed. -/
structure Front where
  marks : Marks
  todo : List LocId
  relaxed : List Relaxation

/-- How far it has come when one more root is walked. -/
def Front.walk (a : Adder) (p : Program) (g : Graph) (record : Bool) (root : LocId) (m : Marks)
    (rest : List LocId) (relaxed : List Relaxation) : Front :=
  let w := (Walk.start g root m rest relaxed).run a p g record root
  ⟨w.marks, w.todo, w.relaxed⟩

/-- `n` walks, each of the root that is first on the list. -/
inductive Rounds (a : Adder) (p : Program) (g : Graph) (record : Bool) :
    Nat → Front → Front → Prop
  | zero (s : Front) : Rounds a p g record 0 s s
  | succ {n : Nat} {m : Marks} {root : LocId} {rest : List LocId} {relaxed : List Relaxation}
      {s : Front} : Rounds a p g record n (.walk a p g record root m rest relaxed) s →
      Rounds a p g record (n + 1) ⟨m, root :: rest, relaxed⟩ s

namespace Rounds

variable {a : Adder} {p : Program} {g : Graph} {record : Bool}

/-- Rounds come to an end.  Each takes a root from the list, and what it puts there it pays for
with a missing attribute. -/
theorem exists_end (a : Adder) (p : Program) (g : Graph) (record : Bool) (m : Marks)
    (todo : List LocId) (relaxed : List Relaxation) :
    ∃ n m' relaxed', Rounds a p g record n ⟨m, todo, relaxed⟩ ⟨m', [], relaxed'⟩ ∧
      todo.length ≤ n ∧ n ≤ todo.length + m.missing := by
  fun_induction Graph.drain a p g ⟨0, record⟩ m todo 0 relaxed with
  | case1 m walks relaxed => exact ⟨0, m, relaxed, .zero _, by simp, by simp⟩
  | case2 m walks relaxed root rest hbound => simp at hbound
  | case3 m walks relaxed root rest hbound ih =>
    obtain ⟨n, m', relaxed', hrounds, hlower, hupper⟩ := ih
    refine ⟨n + 1, m', relaxed', .succ hrounds, ?_, ?_⟩
    · have := Walk.length_todo_le_run a p g record root (Walk.start g root m rest relaxed)
      simp only [Walk.start, List.length_cons] at this hlower ⊢
      omega
    · have := Walk.potential_run_le a p g record root (Walk.start g root m rest relaxed)
      simp only [Walk.potential, Walk.start, List.length_cons] at this hupper ⊢
      omega

/-- The first of some rounds; if these were not all, a root was left. -/
theorem split {n k : Nat} {s s' : Front} (h : Rounds a p g record (n + (k + 1)) s s') :
    ∃ m root rest relaxed, Rounds a p g record n s ⟨m, root :: rest, relaxed⟩ := by
  induction n generalizing s with
  | zero =>
    rw [Nat.zero_add] at h
    cases h with
    | @succ _ m root rest relaxed => exact ⟨m, root, rest, relaxed, .zero _⟩
  | succ n ih =>
    rw [show n + 1 + (k + 1) = n + (k + 1) + 1 by omega] at h
    cases h with
    | succ h =>
      obtain ⟨m, root, rest, relaxed, hn⟩ := ih h
      exact ⟨m, root, rest, relaxed, .succ hn⟩

/-- There are marks for all locations after some rounds if there were before. -/
theorem fits {n : Nat} {s s' : Front} (h : Rounds a p g record n s s') (hf : s.marks.Fits g)
    (ht : ∀ r ∈ s.todo, r < g.size) : s'.marks.Fits g := by
  induction h with
  | zero s => exact hf
  | succ _ ih =>
    obtain ⟨-, hf', ht'⟩ := Walk.run_keeps _ hf ht (fun _ => True) (fun _ _ _ _ _ _ _ => trivial)
      trivial
    exact ih hf' ht'

/-- Draining begins with any rounds that the bound allows. -/
theorem drain_eq {o : SolveOptions} {n : Nat} {s s' : Front}
    (h : Rounds a p g o.recordPaths n s s') (walks : Nat)
    (hbound : o.maxWalks = 0 ∨ walks + n ≤ o.maxWalks) :
    g.drain a p o s.marks s.todo walks s.relaxed =
      g.drain a p o s'.marks s'.todo (walks + n) s'.relaxed := by
  induction h generalizing walks with
  | zero s => rfl
  | @succ n m root rest relaxed s' _ ih =>
    have hallowed : ¬ (0 < o.maxWalks ∧ o.maxWalks ≤ walks) := by omega
    rw [Graph.drain, if_neg hallowed]
    have hnext := ih (walks + 1) (by omega)
    rw [show walks + 1 + n = walks + (n + 1) by omega] at hnext
    exact hnext

end Rounds

/-- Where solving without a bound starts. -/
def Graph.front (g : Graph) : Front := ⟨g.marks, List.range g.size, []⟩

/-- Rounds that leave no root are all the walks of a solve, unless the bound is less. -/
theorem Graph.solve_eq_of_rounds {a : Adder} {p : Program} {g : Graph} {o : SolveOptions} {n : Nat}
    {m : Marks} {relaxed : List Relaxation}
    (h : Rounds a p g o.recordPaths n g.front ⟨m, [], relaxed⟩)
    (hbound : o.maxWalks = 0 ∨ n ≤ o.maxWalks) :
    g.solveWith a p o = ⟨g.withMarks m, n, none, relaxed.reverse⟩ := by
  have hdrain := h.drain_eq 0 (by omega)
  rw [Graph.drain, Nat.zero_add] at hdrain
  exact hdrain

/-- A solve with a root left after as many rounds as the bound allows stops there. -/
theorem Graph.solve_eq_of_cut {a : Adder} {p : Program} {g : Graph} {o : SolveOptions}
    (hbound : 0 < o.maxWalks) {m : Marks} {root : LocId} {rest : List LocId}
    {relaxed : List Relaxation}
    (h : Rounds a p g o.recordPaths o.maxWalks g.front ⟨m, root :: rest, relaxed⟩) :
    g.solveWith a p o =
      ⟨g.withMarks (m.escapeAll g), o.maxWalks, some (rest.length + 1), relaxed.reverse⟩ := by
  have hdrain := h.drain_eq 0 (by omega)
  rw [Nat.zero_add, Graph.drain, if_pos ⟨hbound, Nat.le_refl _⟩] at hdrain
  exact hdrain

/-! ## The number of walks -/

theorem Attrs.missing_le_four (s : Attrs) : s.missing ≤ 4 := List.countP_le_length

theorem Leaks.get?_heap_add_zero (l : Leaks) : (l.add .heap 0).get? .heap = some 0 := by
  obtain ⟨n, hn, h⟩ := l.within_add (s := .heap) 0 rfl
  rw [show clampDepth 0 = 0 by decide] at hn
  rw [h, Nat.le_zero.1 hn]

/-- A heap leak at depth zero covers all others. -/
theorem Leaks.optimize_eq_toHeap {l : Leaks} (h : l.get? .heap = some 0) :
    l.optimize = .toHeap := by
  apply ext_get?
  intro s
  by_cases hs : s = .heap
  · subst hs
    rw [get?_optimize_heap, h]
    exact empty.get?_heap_add_zero.symm
  · rw [get?_optimize_of_heap h hs, toHeap, get?_add_of_ne _ 0 hs, get?_empty]
    cases l.get? s <;> simp

theorem Marks.escapeAll_leaksOf (g : Graph) (m : Marks) {l : LocId} (hl : l < m.leaks.size)
    (hsink : isSinkId l = false) (hparam : (g.loc l).isParam = true) :
    (m.escapeAll g).leaksOf l = (m.leaksOf l).add .heap 0 := by
  unfold leaksOf escapeAll
  rw [Array.getD_eq_getD_getElem?, Array.getD_eq_getD_getElem?, Array.getElem?_mapIdx,
    Array.getElem?_eq_getElem hl]
  simp [hsink, hparam]

/-- A bound on the number of walks either does not show or is on the safe side.  If the solve
without a bound has no more walks, the outcome is the same.  If it has more, there are as many walks
as the bound says, and all locations but the sinks have all attributes and parameters leak to the
heap, with no more to say of them. -/
theorem solve_limited (p : Program) (g : Graph) (record : Bool) (n : Nat) (hn : 0 < n) :
    ((g.solve p ⟨0, record⟩).walks ≤ n →
      g.solve p ⟨n, record⟩ = g.solve p ⟨0, record⟩ ∧
      (g.solve p ⟨n, record⟩).limitHit = false) ∧
    (n < (g.solve p ⟨0, record⟩).walks →
      (g.solve p ⟨n, record⟩).walks = n ∧ (g.solve p ⟨n, record⟩).limitHit = true ∧
      ∀ l, l < g.size → isSinkId l = false →
        (∀ a, ((g.solve p ⟨n, record⟩).graph.loc l).attrs.has a = true) ∧
        ((g.solve p ⟨0, record⟩).graph.loc l).attrs ≤
          ((g.solve p ⟨n, record⟩).graph.loc l).attrs ∧
        ((g.loc l).isParam = true →
          ((g.solve p ⟨n, record⟩).graph.loc l).leaks.get? .heap = some 0 ∧
          ((g.solve p ⟨n, record⟩).graph.loc l).leaks.optimize = .toHeap)) := by
  obtain ⟨W, m, relaxed, hrounds, -⟩ :=
    Rounds.exists_end .int32 p g record g.marks (List.range g.size) []
  have hfree : g.solve p ⟨0, record⟩ = ⟨g.withMarks m, W, none, relaxed.reverse⟩ :=
    Graph.solve_eq_of_rounds hrounds (.inl rfl)
  constructor
  · intro hle
    rw [hfree] at hle ⊢
    have hsame : g.solve p ⟨n, record⟩ = ⟨g.withMarks m, W, none, relaxed.reverse⟩ :=
      Graph.solve_eq_of_rounds hrounds (.inr hle)
    rw [hsame]
    exact ⟨rfl, rfl⟩
  · intro hlt
    rw [show (g.solve p ⟨0, record⟩).walks = W by rw [hfree]] at hlt
    -- the bound is reached between two rounds, with a root at hand
    obtain ⟨k, rfl⟩ : ∃ k, W = n + (k + 1) := ⟨W - n - 1, by omega⟩
    obtain ⟨m', root, rest, relaxed', hn'⟩ := hrounds.split
    have hf : m'.Fits g := hn'.fits g.marks_fits fun r hr => List.mem_range.1 hr
    have hcut : g.solve p ⟨n, record⟩ =
        ⟨g.withMarks (m'.escapeAll g), n, some (rest.length + 1), relaxed'.reverse⟩ :=
      Graph.solve_eq_of_cut (o := ⟨n, record⟩) hn hn'
    rw [hcut]
    refine ⟨rfl, rfl, fun l hl hsink => ?_⟩
    have hall : Attrs.all ≤ (m'.escapeAll g).attrsOf l := by
      rw [m'.escapeAll_attrsOf g (by rwa [hf.attrs]), hsink]
      exact Attrs.le_union_right _ _
    simp only [g.withMarks_loc (m'.escapeAll g) hl]
    refine ⟨fun a => hall a (Attrs.has_all a), Attrs.le_trans (Attrs.le_all _) hall, ?_⟩
    intro hparam
    rw [m'.escapeAll_leaksOf g (by rwa [hf.leaks]) hsink hparam]
    have hheap := (m'.leaksOf l).get?_heap_add_zero
    exact ⟨hheap, Leaks.optimize_eq_toHeap hheap⟩

/-- Six walks solve `returnedParam`.  Allowing as many changes nothing; one less, and its parameter
leaks to the heap. -/
theorem solve_limited_returnedParam :
    (returnedParam.solve {} ⟨0, false⟩).walks = 6 ∧
      returnedParam.solve {} ⟨6, false⟩ = returnedParam.solve {} ⟨0, false⟩ ∧
      (returnedParam.solve {} ⟨5, false⟩).walks = 5 ∧
      (returnedParam.solve {} ⟨5, false⟩).limitHit = true ∧
      ((returnedParam.solve {} ⟨5, false⟩).graph.loc 3).leaks.optimize = .toHeap := by
  have hwalks : (returnedParam.solve {} ⟨0, false⟩).walks = 6 := by cbv
  obtain ⟨hsame, -⟩ := solve_limited {} returnedParam false 6 (by decide)
  obtain ⟨-, hcut⟩ := solve_limited {} returnedParam false 5 (by decide)
  obtain ⟨h5, hhit, hlocs⟩ := hcut (by omega)
  obtain ⟨-, -, hparam⟩ := hlocs 3 (by decide) rfl
  exact ⟨hwalks, (hsame (by omega)).1, h5, hhit, (hparam rfl).2⟩

end EscapeFlow
