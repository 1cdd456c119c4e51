import EscapeFlow.Total

/-!
# Strongly connected components

Tarjan's search.  Vertices are numbered in the order in which a depth-first search enters them, and
stay on a stack until their component is known.  The low link of a vertex is the least number on the
stack that it is found to lead back to.  A vertex that leads back to nothing before itself is the
first of its component, which is all that lies above it on the stack, so a component is taken off
after all components that it leads to.
-/

namespace EscapeFlow.Schedule

variable {α : Type} [DecidableEq α]

/-- A vertex that is entered and not left, with the successors that are still to be looked at. -/
structure Frame (α : Type) where
  vertex : α
  rest : List α

structure Search (α : Type) where
  /-- The vertices that are entered and not left, the last one first. -/
  frames : List (Frame α) := []
  index : α → Option Nat := fun _ => none
  lowlink : α → Option Nat := fun _ => none
  /-- The number that the next vertex gets. -/
  current : Nat := 0
  /-- The vertices that have no component yet, the last one first. -/
  stack : List α := []
  onStack : List α := []
  found : List (List α) := []

/-- The vertices of a stack down to `v`, and those below. -/
def popTo (v : α) : List α → List α × List α
  | [] => ([], [])
  | w :: below =>
    if w = v then ([w], below)
    else (w :: (popTo v below).1, (popTo v below).2)

namespace Search

def number (s : Search α) (v : α) : Nat := (s.index v).getD 0

def low (s : Search α) (v : α) : Nat := (s.lowlink v).getD 0

/-- The vertex has no number yet.  With all vertices in `V`, a search leaves nothing out. -/
def isNew (V : List α) (s : Search α) (v : α) : Bool := (s.index v).isNone && V.contains v

def enter (next : α → List α) (s : Search α) (v : α) : Search α where
  frames := ⟨v, next v⟩ :: s.frames
  index w := if w = v then some s.current else s.index w
  lowlink w := if w = v then some s.current else s.lowlink w
  current := s.current + 1
  stack := v :: s.stack
  onStack := v :: s.onStack
  found := s.found

/-- The vertex leads back to number `n`. -/
def lower (s : Search α) (v : α) (n : Nat) : Search α :=
  { s with lowlink := fun w => if w = v then some (min (s.low v) n) else s.lowlink w }

/-- Takes the component off the stack of which `v` is the first vertex. -/
def pop (s : Search α) (v : α) : Search α :=
  let (component, below) := popTo v s.stack
  { s with
    stack := below
    onStack := s.onStack.filter (· ∉ component)
    found := s.found ++ [component] }

/-- The vertex from which `v` was entered leads back wherever `v` does. -/
def passDown (s : Search α) (v : α) : Search α :=
  match s.frames with
  | [] => s
  | f :: _ => s.lower f.vertex (s.low v)

/-- What is done when the frame of `v` is gone. -/
def leave (s : Search α) (v : α) : Search α :=
  passDown (if s.low v = s.number v then s.pop v else s) v

/-- The next successor `w` of the top open vertex `v`. -/
def look (next : α → List α) (V : List α) (s : Search α) (v w : α) : Search α :=
  if s.isNew V w then s.enter next w
  else if s.onStack.contains w then s.lower v (s.number w)
  else s

/-- What is next to be done for the top frame. -/
def step (next : α → List α) (V : List α) (s : Search α) (f : Frame α) (below : List (Frame α)) :
    Search α :=
  match f.rest with
  | [] => leave { s with frames := below } f.vertex
  | w :: rest => look next V { s with frames := ⟨f.vertex, rest⟩ :: below } f.vertex w

/-! ## The search ends -/

def unnumbered (V : List α) (s : Search α) : Nat :=
  (V.filter fun v => (s.index v).isNone).length

/-- What is left to do in the frames. -/
def work (s : Search α) : Nat := total (·.rest.length + 1) s.frames

theorem unnumbered_enter (next : α → List α) {V : List α} {s : Search α} {v : α}
    (h : s.isNew V v = true) : (s.enter next v).unnumbered V < s.unnumbered V := by
  obtain ⟨hnone, hv⟩ := Bool.and_eq_true_iff.1 h
  have hsplit : V.filter (fun w => ((s.enter next v).index w).isNone) =
      (V.filter fun w => (s.index w).isNone).filter fun w => w ≠ v := by
    rw [List.filter_filter]
    refine List.filter_congr fun w _ => ?_
    by_cases hw : w = v <;> simp [enter, hw]
  unfold unnumbered
  rw [hsplit, List.length_filter_lt_length_iff_exists]
  exact ⟨v, List.mem_filter.2 ⟨List.contains_iff_mem.1 hv, hnone⟩, by simp⟩

theorem leave_index (s : Search α) (v : α) : (s.leave v).index = s.index := by
  unfold leave passDown
  split <;> split <;> rfl

theorem leave_frames (s : Search α) (v : α) : (s.leave v).frames = s.frames := by
  unfold leave passDown
  split <;> split <;> rfl

theorem step_lt (next : α → List α) (V : List α) {s : Search α} {f : Frame α}
    {below : List (Frame α)} (h : s.frames = f :: below) :
    (s.step next V f below).unnumbered V < s.unnumbered V ∨
      (s.step next V f below).unnumbered V = s.unnumbered V ∧
        (s.step next V f below).work < s.work := by
  obtain ⟨v, rest⟩ := f
  unfold step
  cases rest with
  | nil =>
    refine .inr ⟨?_, ?_⟩
    · unfold unnumbered
      rw [leave_index]
    · unfold work
      rw [leave_frames, h]
      simp [total]
  | cons w rest =>
    have hwork : total (·.rest.length + 1) (⟨v, rest⟩ :: below) < s.work := by
      unfold work
      rw [h]
      simp [total]
    dsimp only
    unfold look
    split
    · next hnew => exact .inl (unnumbered_enter next hnew)
    · split
      · exact .inr ⟨rfl, hwork⟩
      · exact .inr ⟨rfl, hwork⟩

/-- Goes on until no frame is left. -/
def run (next : α → List α) (V : List α) (s : Search α) : Search α :=
  match _h : s.frames with
  | [] => s
  | f :: below => run next V (s.step next V f below)
termination_by (s.unnumbered V, s.work)
decreasing_by
  rcases step_lt next V _h with hlt | ⟨heq, hlt⟩
  · exact Prod.Lex.left _ _ hlt
  · rw [heq]
    exact Prod.Lex.right _ hlt

/-- A search from `v`, unless it has been entered. -/
def visit (next : α → List α) (V : List α) (s : Search α) (v : α) : Search α :=
  if s.isNew V v then (s.enter next v).run next V else s

end Search

/-- The components that the starts lead to inside `V`, each after those that it leads to. -/
def components (next : α → List α) (V starts : List α) : List (List α) :=
  (starts.foldl (Search.visit next V) {}).found

end EscapeFlow.Schedule
