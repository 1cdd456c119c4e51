import EscapeFlow.Flow.Adder
import EscapeFlow.Flow.Location

/-!
# Root walks

A walk goes backwards from a root location along the edges and finds, for each location whose
value or address gets to the root, the least number of dereferences on the way.  The running
number never counts below zero: an address that is followed further is a value again.  Each
location learns attributes and leaks from the root as it is reached, and those that gain an
attribute are put on the list of roots still to be walked.

A location can be reached many times, with ever smaller numbers.  This ends even on cycles of
negative weight, because a number is never below the least weight of an edge and the floor of the
sums: a step of the walk reaches a new location, or lowers the number of an old one, or only
shortens the stack (`Walk.step_descends`).  A new entry on the list of roots is paid for by an
attribute gained (`Walk.potential_run_le`).
-/

namespace EscapeFlow

/-- What solving changes about the locations of a graph. -/
structure Marks where
  attrs : Array Attrs
  leaks : Array Leaks
  paths : List (LocId × List Hop)

namespace Marks

def attrsOf (m : Marks) (l : LocId) : Attrs := m.attrs.getD l .empty

def leaksOf (m : Marks) (l : LocId) : Leaks := m.leaks.getD l .empty

/-- Whether location `l` lacks one of the attributes `new`. -/
def lacks (m : Marks) (l : LocId) (new : Attrs) : Bool := (m.attrs[l]?).any (·.gains new)

def gain (m : Marks) (l : LocId) (new : Attrs) : Marks :=
  { m with attrs := m.attrs.modify l (·.union new) }

/-- How many attributes are missing in all. -/
def missing (m : Marks) : Nat := total Attrs.missing m.attrs.toList

end Marks

namespace Graph

def marks (g : Graph) : Marks := ⟨g.locs.map (·.attrs), g.locs.map (·.leaks), g.paths⟩

def withMarks (g : Graph) (m : Marks) : Graph where
  locs := g.locs.mapIdx fun i l => { l with attrs := m.attrsOf i, leaks := m.leaksOf i }
  paths := m.paths

/-- A bound below all weights, at most zero. -/
def lowest (g : Graph) : Int :=
  ((g.locs.toList.flatMap (·.edges)).map (·.derefs)).foldl min 0

/-- A bound below all numbers that are reached with the sums of `a`. -/
def bottom (a : Adder) (g : Graph) : Int := min a.floor g.lowest

end Graph

/-- Whether storage of the function and loop of `r` can be in use after that of `o` is gone. -/
def Location.outlasts (p : Program) (r o : Location) : Bool :=
  match r.func, o.func with
  | some rf, some f => (rf = f && r.loopDepth < o.loopDepth) || p.containsClosure rf f
  | _, _ => false

/-- Whether `root`, with the attributes `attrs`, may be in use after `other` is gone.  The
sinks for writes and calls hold nothing, and a result belongs to the caller. -/
def outlives (p : Program) (g : Graph) (attrs : Attrs) (root other : LocId) : Bool :=
  attrs.escapes ||
    (root ≠ mutatorId && root ≠ calleeId &&
      ((g.loc root).result.isSome || (g.loc root).outlasts p (g.loc other)))

/-- What `l` learns from a root that its address gets to. -/
def learnedByAddress (p : Program) (g : Graph) (attrs : Attrs) (root l : LocId) : Attrs :=
  if outlives p g attrs root l then .all
  else if attrs.persists then .ofAttr .persists
  else .empty

/-- What `l` learns from a root with attributes `attrs` that it reaches after `d` dereferences. -/
def learned (p : Program) (g : Graph) (attrs : Attrs) (root l : LocId) (d : Int) : Attrs :=
  Attrs.union (if d < 0 then learnedByAddress p g attrs root l else .empty)
    (if d ≤ 0 then attrs.inter .effects else .empty)

/-- The sink to which a parameter leaks that reaches `root`: a result of its own function by
its number, or the heap. -/
def leakSink (g : Graph) (attrs : Attrs) (root l : LocId) : Sink :=
  match (g.loc root).result with
  | some i =>
    if !attrs.escapes && (g.loc root).func = (g.loc l).func && i < Sink.trackedResults
    then .result i else .heap
  | none => .heap

/-- The leaks of `l` with what a root adds that it reaches after `d` dereferences. -/
def leaked (p : Program) (g : Graph) (attrs : Attrs) (root l : LocId) (d : Int)
    (leaks : Leaks) : Leaks :=
  if (g.loc l).isParam then
    let leaks := if outlives p g attrs root l then leaks.add (leakSink g attrs root l) d else leaks
    let leaks := if attrs.mutates then leaks.add .mutator d else leaks
    if attrs.calls then leaks.add .callee d else leaks
  else leaks

/-- How a location was last reached: after how many dereferences, and by which edge. -/
structure Visit where
  derefs : Int
  hop : Option Hop

/-- A number lowered during a walk. -/
structure Relaxation where
  src : LocId
  dst : LocId
  derefs : Int
deriving DecidableEq, Inhabited

structure Walk where
  marks : Marks
  /-- The roots still to be walked. -/
  todo : List LocId
  /-- One entry for each location, empty until it is reached. -/
  visits : Array (Option Visit)
  /-- Locations reached with a number that is not handed on yet. -/
  stack : List LocId
  /-- Everything that was relaxed, the latest first. -/
  relaxed : List Relaxation

namespace Walk

def start (g : Graph) (root : LocId) (marks : Marks) (todo : List LocId)
    (relaxed : List Relaxation) : Walk where
  marks := marks
  todo := todo
  visits := (Array.replicate g.size none).setIfInBounds root (some ⟨0, none⟩)
  stack := [root]
  relaxed := relaxed

/-- The hops from `l` to the root, at most `n`. -/
def trail (w : Walk) : Nat → LocId → List Hop
  | 0, _ => []
  | n + 1, l =>
    match w.visits.getD l none with
    | some ⟨_, some hop⟩ => hop :: w.trail n hop.dst
    | _ => []

/-- Records the hops to the root for a location that has no path yet. -/
def markPath (w : Walk) (l : LocId) : Marks :=
  if (w.marks.paths.lookup l).isSome then w.marks
  else { w.marks with paths := w.marks.paths ++ [(l, w.trail w.visits.size l)] }

/-- Whether a number is less than that of the last visit. -/
def lowers (d : Int) : Option Visit → Bool
  | none => true
  | some v => d < v.derefs

/-- Reaches the source of edge `e` of location `l`, which itself is reached after `d`
dereferences.  Sources that escape are left to walks of their own. -/
def relax (a : Adder) (l : LocId) (d : Int) (w : Walk) (e : Edge) : Walk :=
  if (w.marks.attrsOf e.src).escapes then w
  else
    match w.visits[e.src]? with
    | none => w
    | some old =>
      if lowers (a.add d e.derefs) old then
        { w with
          visits := w.visits.setIfInBounds e.src
            (some ⟨a.add d e.derefs, some ⟨l, e.src, e.derefs, e.notes⟩⟩)
          stack := w.stack.insert e.src
          relaxed := ⟨e.src, l, a.add d e.derefs⟩ :: w.relaxed }
      else w

/-- What the location at `l`, reached after `d` dereferences, learns and leaks. -/
def mark (p : Program) (g : Graph) (record : Bool) (root : LocId) (w : Walk) (l : LocId)
    (d : Int) : Marks :=
  let attrs := w.marks.attrsOf root
  let m :=
    if record && d < 0 && outlives p g attrs root l && !(w.marks.attrsOf l).escapes
    then w.markPath l else w.marks
  { m with leaks := m.leaks.modify l (leaked p g attrs root l d) }

/-- The walk after location `l`, reached after `d` dereferences, has learned from the root. -/
def learn (p : Program) (g : Graph) (record : Bool) (root : LocId) (w : Walk) (l : LocId)
    (d : Int) : Walk :=
  let new := learned p g (w.marks.attrsOf root) root l d
  if w.marks.lacks l new then
    { w with marks := (w.mark p g record root l d).gain l new, todo := w.todo.insert l }
  else { w with marks := w.mark p g record root l d }

/-- Whether location `l` gains an attribute and escapes from then on. -/
def turnsEscaping (p : Program) (g : Graph) (root : LocId) (w : Walk) (l : LocId) (d : Int) :
    Bool :=
  let new := learned p g (w.marks.attrsOf root) root l d
  w.marks.lacks l new && ((w.marks.attrsOf l).union new).escapes

/-- Handles location `l`, which was taken from the stack: it learns from the root, and its
number is handed on along its edges unless it turns escaping, when it is walked as a root of
its own. -/
def step (a : Adder) (p : Program) (g : Graph) (record : Bool) (root : LocId) (w : Walk)
    (l : LocId) : Walk :=
  match w.visits.getD l none with
  | none => w
  | some v =>
    if w.turnsEscaping p g root l v.derefs then w.learn p g record root l v.derefs
    else (g.loc l).edges.foldl (relax a l (max v.derefs 0)) (w.learn p g record root l v.derefs)

/-! ## A walk ends -/

def gap (low : Int) : Option Visit → Nat
  | none => 0
  | some v => (v.derefs - low).toNat

def unvisited (w : Walk) : Nat := w.visits.toList.countP (·.isNone)

/-- How far the numbers in all are above their lower bound. -/
def slack (a : Adder) (g : Graph) (w : Walk) : Nat := total (gap (g.bottom a)) w.visits.toList

/-- `w'` differs from `w` at most in marks, or has fewer locations to reach, or as many and
lower numbers. -/
def Descends (a : Adder) (g : Graph) (w w' : Walk) : Prop :=
  (w'.visits = w.visits ∧ w'.stack = w.stack) ∨ w'.unvisited < w.unvisited ∨
    (w'.unvisited = w.unvisited ∧ w'.slack a g < w.slack a g)

theorem Descends.trans {a : Adder} {g : Graph} {w w' w'' : Walk} (h : Descends a g w w')
    (k : Descends a g w' w'') : Descends a g w w'' := by
  unfold Descends unvisited slack at *
  rcases h with ⟨hv, hs⟩ | h | h <;> rcases k with ⟨kv, ks⟩ | k | k
  · exact .inl ⟨kv.trans hv, ks.trans hs⟩
  · rw [hv] at k; exact .inr (.inl k)
  · rw [hv] at k; exact .inr (.inr k)
  · rw [kv]; exact .inr (.inl h)
  · exact .inr (.inl (by omega))
  · exact .inr (.inl (by omega))
  · rw [kv]; exact .inr (.inr h)
  · exact .inr (.inl (by omega))
  · exact .inr (.inr (by omega))

theorem descends_relax (a : Adder) (g : Graph) (l : LocId) (d : Int) (w : Walk) (e : Edge)
    (he : g.bottom a ≤ a.add d e.derefs) : Descends a g w (relax a l d w e) := by
  unfold relax
  split
  · exact .inl ⟨rfl, rfl⟩
  · split
    · exact .inl ⟨rfl, rfl⟩
    · rename_i old hold
      split
      · rename_i hlow
        obtain ⟨hi, hget⟩ := Array.getElem?_eq_some_iff.1 hold
        have hi' : e.src < w.visits.toList.length := by simpa using hi
        have hg : w.visits.toList[e.src] = old := by simpa using hget
        have hc := List.countP_set (p := (·.isNone)) (l := w.visits.toList) (i := e.src) hi'
          (a := some ⟨a.add d e.derefs, some ⟨l, e.src, e.derefs, e.notes⟩⟩)
        have hs := total_set (gap (g.bottom a)) w.visits.toList e.src hi'
          (some ⟨a.add d e.derefs, some ⟨l, e.src, e.derefs, e.notes⟩⟩)
        rw [hg] at hc hs
        right
        simp only [unvisited, slack, Array.toList_setIfInBounds]
        cases old with
        | none =>
          left
          have hpos : 0 < w.visits.toList.countP (·.isNone) :=
            List.countP_pos_iff.2 ⟨none, hg ▸ List.getElem_mem hi', rfl⟩
          simp only [Option.isNone_none, Option.isNone_some, Bool.false_eq_true, if_true,
            if_false] at hc
          omega
        | some v =>
          right
          simp only [lowers, decide_eq_true_eq] at hlow
          simp only [gap] at hs
          simp only [Option.isNone_some, Bool.false_eq_true, if_false] at hc
          exact ⟨hc, by omega⟩
      · exact .inl ⟨rfl, rfl⟩

theorem descends_foldl_relax (a : Adder) (g : Graph) (l : LocId) (d : Int) (es : List Edge)
    (hes : ∀ e ∈ es, g.bottom a ≤ a.add d e.derefs) (w : Walk) :
    Descends a g w (es.foldl (relax a l d) w) := by
  induction es generalizing w with
  | nil => exact .inl ⟨rfl, rfl⟩
  | cons e es ih =>
    exact (descends_relax a g l d w e (hes e (by simp))).trans
      (ih (fun e he => hes e (by simp [he])) _)

end Walk

theorem foldl_min_le (xs : List Int) (b : Int) :
    xs.foldl min b ≤ b ∧ ∀ x ∈ xs, xs.foldl min b ≤ x := by
  induction xs generalizing b with
  | nil => simp
  | cons x xs ih =>
    obtain ⟨h1, h2⟩ := ih (min b x)
    refine ⟨by simp only [List.foldl_cons]; omega, fun y hy => ?_⟩
    simp only [List.foldl_cons]
    rcases List.mem_cons.1 hy with rfl | hy
    · omega
    · exact h2 y hy

theorem Graph.lowest_le {g : Graph} {l : LocId} {e : Edge} (he : e ∈ (g.loc l).edges) :
    g.lowest ≤ e.derefs := by
  refine (foldl_min_le _ 0).2 _ (List.mem_map_of_mem (List.mem_flatMap.2 ⟨g.loc l, ?_, he⟩))
  unfold Graph.loc at he ⊢
  rw [Array.getD_eq_getD_getElem?] at he ⊢
  cases h : g.locs[l]? with
  | none => rw [h] at he; simp at he
  | some x => simpa using Array.mem_of_getElem? h

namespace Walk

@[simp]
theorem learn_visits (p : Program) (g : Graph) (record : Bool) (root : LocId) (w : Walk)
    (l : LocId) (d : Int) : (w.learn p g record root l d).visits = w.visits := by
  unfold learn
  dsimp only
  split <;> rfl

@[simp]
theorem learn_stack (p : Program) (g : Graph) (record : Bool) (root : LocId) (w : Walk)
    (l : LocId) (d : Int) : (w.learn p g record root l d).stack = w.stack := by
  unfold learn
  dsimp only
  split <;> rfl

theorem step_descends (a : Adder) (p : Program) (g : Graph) (record : Bool) (root : LocId)
    (w : Walk) (l : LocId) : Descends a g w (w.step a p g record root l) := by
  unfold step
  split
  · exact .inl ⟨rfl, rfl⟩
  · rename_i v _
    have hl : Descends a g w (w.learn p g record root l v.derefs) := .inl ⟨by simp, by simp⟩
    split
    · exact hl
    · refine hl.trans (descends_foldl_relax a g l _ _ (fun e he => ?_) _)
      have hlow := Graph.lowest_le he
      have hsum := a.le_add (max v.derefs 0) e.derefs (by omega)
      unfold Graph.bottom
      omega

/-- Takes locations from the stack until it is empty. -/
def run (a : Adder) (p : Program) (g : Graph) (record : Bool) (root : LocId) (w : Walk) : Walk :=
  match _h : w.stack with
  | [] => w
  | l :: rest => run a p g record root (step a p g record root { w with stack := rest } l)
termination_by (w.unvisited, w.slack a g, w.stack.length)
decreasing_by
  have hd := step_descends a p g record root { w with stack := rest } l
  simp only [Descends] at hd
  rcases hd with ⟨hv, hs⟩ | hd | hd
  · simp only [unvisited, slack, hv, hs, _h, List.length_cons]
    exact Prod.Lex.right _ (Prod.Lex.right _ (by omega))
  · exact Prod.Lex.left _ _ hd
  · rw [hd.1]
    exact Prod.Lex.right _ (Prod.Lex.left _ _ hd.2)

/-! ## New roots are paid for -/

/-- Roots to walk, and those that can still come. -/
def potential (w : Walk) : Nat := w.todo.length + w.marks.missing

end Walk

theorem Marks.missing_gain_lt {m : Marks} {l : LocId} {new : Attrs} (h : m.lacks l new = true) :
    (m.gain l new).missing < m.missing := by
  simp only [Marks.lacks, Option.any_eq_true] at h
  obtain ⟨a, ha, hg⟩ := h
  obtain ⟨hi, hget⟩ := Array.getElem?_eq_some_iff.1 ha
  have hi' : l < m.attrs.toList.length := by simpa using hi
  have hg' : m.attrs.toList[l] = a := by simpa using hget
  have hs := total_set Attrs.missing m.attrs.toList l hi' (a.union new)
  have hlt := Attrs.missing_union_lt hg
  have he : (m.attrs.modify l (·.union new)).toList = m.attrs.toList.set l (a.union new) := by
    simp [Array.toList_modify, List.modify_eq_set, ha]
  simp only [Marks.missing, Marks.gain, he]
  rw [hg'] at hs
  omega

namespace Walk

theorem mark_attrs (p : Program) (g : Graph) (record : Bool) (root : LocId) (w : Walk)
    (l : LocId) (d : Int) : (w.mark p g record root l d).attrs = w.marks.attrs := by
  unfold mark markPath
  dsimp only
  split
  · split <;> rfl
  · rfl

theorem potential_learn_le (p : Program) (g : Graph) (record : Bool) (root : LocId) (w : Walk)
    (l : LocId) (d : Int) : (w.learn p g record root l d).potential ≤ w.potential := by
  have ha := w.mark_attrs p g record root l d
  unfold learn
  dsimp only
  split
  · rename_i h
    have hm : (w.mark p g record root l d).lacks l
        (learned p g (w.marks.attrsOf root) root l d) = true := by
      unfold Marks.lacks at h ⊢
      rwa [ha]
    have hlt := Marks.missing_gain_lt hm
    have hi : (w.todo.insert l).length ≤ w.todo.length + 1 := by
      rw [List.length_insert]
      split <;> omega
    have he : (w.mark p g record root l d).missing = w.marks.missing := by
      simp only [Marks.missing, ha]
    simp only [potential]
    omega
  · simp [potential, Marks.missing, ha]

theorem potential_foldl_relax (a : Adder) (l : LocId) (d : Int) (es : List Edge) (w : Walk) :
    (es.foldl (relax a l d) w).potential = w.potential := by
  induction es generalizing w with
  | nil => rfl
  | cons e es ih =>
    rw [List.foldl_cons, ih]
    unfold relax
    split
    · rfl
    · split
      · rfl
      · split <;> rfl

theorem potential_step_le (a : Adder) (p : Program) (g : Graph) (record : Bool) (root : LocId)
    (w : Walk) (l : LocId) : (w.step a p g record root l).potential ≤ w.potential := by
  unfold step
  split
  · exact Nat.le_refl _
  · split
    · exact potential_learn_le p g record root w l _
    · rw [potential_foldl_relax]
      exact potential_learn_le p g record root w l _

theorem potential_run_le (a : Adder) (p : Program) (g : Graph) (record : Bool) (root : LocId)
    (w : Walk) : (w.run a p g record root).potential ≤ w.potential := by
  fun_induction run a p g record root w with
  | case1 w h => exact Nat.le_refl _
  | case2 w l rest h ih => exact Nat.le_trans ih (potential_step_le a p g record root _ l)

end Walk

end EscapeFlow
