import EscapeFlow.Schedule.LowLink
import Mathlib.Data.List.Nodup
import Mathlib.Logic.Relation

/-!
# Low links

What holds at every moment of a search for components (`Search.Sound`), in three parts.  The stack
is in the order of the numbers, and what is numbered is on the stack or in a component
(`Numbered`).  From an open vertex there is a path to all that lies above it, and the low link of a
vertex is the number of one that it leads to (`Linked`):

    v ∈ s.stack → ∃ w ∈ s.stack, s.number w = s.low v ∧ CanReach next v w                   (back)

Components are classes of vertices that lead to each other, no component leads to a later one, and
no path leads out of them all (`Emitted`).

If the low link of the top open vertex is its own number, then no low link from there on is less,
so everything above leads back to it (`Sound.canReach_root`) and nothing above leads further down
(`Sound.next_subset`).  Every step of a search keeps all this (`Sound.step`).
-/

namespace EscapeFlow.Schedule

variable {α : Type} [DecidableEq α]

/-- There is a path from `v` to `w`. -/
abbrev CanReach (next : α → List α) : α → α → Prop :=
  Relation.ReflTransGen fun a b => b ∈ next a

omit [DecidableEq α] in
/-- What is closed under successors has no way out. -/
theorem CanReach.closed {next : α → List α} {P : α → Prop} (h : ∀ v, P v → ∀ w ∈ next v, P w)
    {v w : α} (hp : CanReach next v w) (hv : P v) : P w := by
  induction hp with
  | refl => exact hv
  | tail _ hstep ih => exact h _ ih _ hstep

theorem popTo_append {v : α} {above : List α} (h : v ∉ above) (below : List α) :
    popTo v (above ++ v :: below) = (above ++ [v], below) := by
  induction above with
  | nil => simp [popTo]
  | cons w above ih =>
    obtain ⟨hw, habove⟩ := List.ne_and_not_mem_of_not_mem_cons h
    rw [List.cons_append, popTo, if_neg hw.symm, ih habove]
    rfl

namespace Search

section Views

variable (next : α → List α) (s : Search α) (v w : α) (n : Nat)

@[simp] theorem number_enter :
    (s.enter next v).number w = if w = v then s.current else s.number w := by
  unfold number enter
  dsimp only
  split <;> rfl

@[simp] theorem low_enter :
    (s.enter next v).low w = if w = v then s.current else s.low w := by
  unfold low enter
  dsimp only
  split <;> rfl

@[simp] theorem low_lower : (s.lower v n).low w = if w = v then min (s.low v) n else s.low w := by
  unfold lower
  rw [low]
  dsimp only
  split <;> rfl

@[simp] theorem number_lower : (s.lower v n).number w = s.number w := rfl

end Views

/-- The vertex is entered and not left. -/
def IsOpen (s : Search α) (v : α) : Prop := v ∈ s.frames.map (·.vertex)

/-- The vertices of the components that are found. -/
def done (s : Search α) : List α := s.found.flatten

/-- Numbers go up along the stack, and all numbered vertices are there or in components. -/
structure Numbered (next : α → List α) (U : α → Prop) (s : Search α) : Prop where
  onStack : s.onStack = s.stack
  indexed : ∀ v, (s.index v).isSome ↔ v ∈ s.stack ∨ v ∈ s.done
  within : ∀ v, (s.index v).isSome → U v
  disjoint : ∀ v ∈ s.stack, v ∉ s.done
  current : ∀ v ∈ s.stack, s.number v < s.current
  sorted : s.stack.Pairwise fun v w => s.number w < s.number v
  frames : (s.frames.map (·.vertex)).Sublist s.stack
  rest : ∀ f ∈ s.frames, f.rest ⊆ next f.vertex

/-- How the vertices on the stack lead to each other, and what their low links say of it. -/
structure Linked (next : α → List α) (s : Search α) : Prop where
  /-- At the bottom of the stack is an open vertex. -/
  bottom : ∀ v ∈ s.stack, ∃ g, s.IsOpen g ∧ s.number g ≤ s.number v
  above : ∀ g v, s.IsOpen g → v ∈ s.stack → s.number g ≤ s.number v → CanReach next g v
  low_le : ∀ v ∈ s.stack, s.low v ≤ s.number v
  low_lt : ∀ v ∈ s.stack, ¬ s.IsOpen v → s.low v < s.number v
  back : ∀ v ∈ s.stack, ∃ w ∈ s.stack, s.number w = s.low v ∧ CanReach next v w
  /-- A successor has a component, or the low link knows of it, or it is still to be looked at. -/
  looked : ∀ v ∈ s.stack, ∀ w ∈ next v, w ∈ s.done ∨ (w ∈ s.stack ∧ s.low v ≤ s.number w) ∨
    ∃ f ∈ s.frames, f.vertex = v ∧ w ∈ f.rest
  /-- Low links are passed down to the next open vertex. -/
  passed : ∀ g v, s.IsOpen g → v ∈ s.stack → s.number g < s.number v →
    s.low g ≤ s.low v ∨ ∃ h, s.IsOpen h ∧ s.number g < s.number h ∧ s.number h ≤ s.number v

/-- Components as they should be. -/
structure Emitted (next : α → List α) (found : List (List α)) : Prop where
  nodup : ∀ C ∈ found, C.Nodup
  ne_nil : ∀ C ∈ found, C ≠ []
  component : ∀ C ∈ found, ∀ u ∈ C, ∀ w, w ∈ C ↔ CanReach next u w ∧ CanReach next w u
  closed : ∀ v ∈ found.flatten, next v ⊆ found.flatten
  ordered : found.Pairwise fun C D => ∀ u ∈ C, ∀ w ∈ D, ¬ CanReach next u w

/-- The stack is `C` down to `v` and `under` below. -/
structure Cut (s : Search α) (v : α) (C under : List α) : Prop where
  popTo : popTo v s.stack = (C, under)
  stack : s.stack = C ++ under
  mem : ∀ x, x ∈ C ↔ x ∈ s.stack ∧ s.number v ≤ s.number x
  mem_under : ∀ x, x ∈ under ↔ x ∈ s.stack ∧ s.number x < s.number v

structure Sound (next : α → List α) (U : α → Prop) (s : Search α) : Prop where
  numbered : s.Numbered next U
  linked : s.Linked next
  emitted : Emitted next s.found

variable {next : α → List α} {U : α → Prop} {s : Search α}

omit [DecidableEq α] in
theorem sound_empty (next : α → List α) (U : α → Prop) : Sound next U {} where
  numbered := {
    onStack := rfl
    indexed := fun v => by simp [done]
    within := fun v h => by cases h
    disjoint := fun v h => by cases h
    current := fun v h => by cases h
    sorted := .nil
    frames := .slnil
    rest := fun f h => by cases h }
  linked := {
    bottom := fun v h => by cases h
    above := fun g v _ h => by cases h
    low_le := fun v h => by cases h
    low_lt := fun v h => by cases h
    back := fun v h => by cases h
    looked := fun v h => by cases h
    passed := fun g v _ h => by cases h }
  emitted := {
    nodup := fun C h => by cases h
    ne_nil := fun C h => by cases h
    component := fun C h => by cases h
    closed := fun v h => by simp at h
    ordered := .nil }

namespace Numbered

variable (h : s.Numbered next U)

include h

omit [DecidableEq α] in
theorem mem_stack_of_isOpen {v : α} (hv : s.IsOpen v) : v ∈ s.stack := h.frames.subset hv

omit [DecidableEq α] in
theorem eq_of_number_eq {v w : α} (hv : v ∈ s.stack) (hw : w ∈ s.stack)
    (heq : s.number v = s.number w) : v = w := by
  have hnodup : (s.stack.map s.number).Nodup :=
    List.pairwise_map.2 (h.sorted.imp fun hlt => (Nat.ne_of_lt hlt).symm)
  exact List.inj_on_of_nodup_map hnodup hv hw heq

omit [DecidableEq α] in
theorem nodup : s.stack.Nodup := by
  refine h.sorted.imp fun hlt heq => ?_
  subst heq
  exact Nat.lt_irrefl _ hlt

/-! The top frame -/

variable {v : α} {rest : List α} {below : List (Frame α)}

omit [DecidableEq α] in
/-- Open vertices are below the top one. -/
theorem number_lt_top (hf : s.frames = ⟨v, rest⟩ :: below) {f : Frame α} (hmem : f ∈ below) :
    s.number f.vertex < s.number v := by
  have hsorted := h.sorted.sublist h.frames
  rw [hf] at hsorted
  exact (List.pairwise_cons.1 hsorted).1 _ (List.mem_map_of_mem hmem)

omit [DecidableEq α] in
theorem number_le_top (hf : s.frames = ⟨v, rest⟩ :: below) {g : α} (hg : s.IsOpen g) :
    s.number g ≤ s.number v := by
  unfold IsOpen at hg
  rw [hf, List.map_cons, List.mem_cons] at hg
  rcases hg with rfl | hg
  · exact Nat.le_refl _
  · obtain ⟨f, hmem, rfl⟩ := List.mem_map.1 hg
    exact Nat.le_of_lt (h.number_lt_top hf hmem)

omit [DecidableEq α] in
theorem eq_top_of_le (hf : s.frames = ⟨v, rest⟩ :: below) {g : α} (hg : s.IsOpen g)
    (hle : s.number v ≤ s.number g) : g = v := by
  have hv : s.IsOpen v := by simp [IsOpen, hf]
  exact h.eq_of_number_eq (h.mem_stack_of_isOpen hg) (h.mem_stack_of_isOpen hv)
    (Nat.le_antisymm (h.number_le_top hf hg) hle)

/-- The stack can be cut below `v`. -/
theorem exists_cut (hv : v ∈ s.stack) : ∃ C under, s.Cut v C under := by
  obtain ⟨upper, under, heq⟩ := List.append_of_mem hv
  have hsorted := h.sorted
  rw [heq, List.pairwise_append, List.pairwise_cons] at hsorted
  have hupper : ∀ x ∈ upper, s.number v < s.number x := fun x hx =>
    hsorted.2.2 x hx v List.mem_cons_self
  have hunder : ∀ x ∈ under, s.number x < s.number v := hsorted.2.1.1
  have hC : ∀ x ∈ upper ++ [v], s.number v ≤ s.number x := by
    intro x hx
    rcases List.mem_append.1 hx with hx | hx
    · exact Nat.le_of_lt (hupper x hx)
    · exact List.mem_singleton.1 hx ▸ Nat.le_refl _
  have heq' : s.stack = (upper ++ [v]) ++ under := by
    rw [heq, List.append_assoc, List.singleton_append]
  refine ⟨upper ++ [v], under, ?_, heq', fun x => ⟨fun hx => ?_, fun hx => ?_⟩,
    fun x => ⟨fun hx => ?_, fun hx => ?_⟩⟩
  · rw [heq, popTo_append fun hmem => Nat.lt_irrefl _ (hupper v hmem)]
  · exact ⟨heq' ▸ List.mem_append_left _ hx, hC x hx⟩
  · refine (List.mem_append.1 (heq' ▸ hx.1)).resolve_right fun hxu => ?_
    exact Nat.not_lt.2 hx.2 (hunder x hxu)
  · exact ⟨heq' ▸ List.mem_append_right _ hx, hunder x hx⟩
  · refine (List.mem_append.1 (heq' ▸ hx.1)).resolve_left fun hxC => ?_
    exact Nat.not_lt.2 (hC x hxC) hx.2

end Numbered

/-! ## Entering -/

section Enter

variable (hn : s.Numbered next U) {v : α} (hnew : s.index v = none)

include hn hnew

omit [DecidableEq α] in
theorem Numbered.not_mem_of_new : v ∉ s.stack ∧ v ∉ s.done := by
  rw [← not_or, ← hn.indexed v, hnew]
  exact Bool.false_ne_true

theorem Numbered.number_enter {x : α} (hx : x ∈ s.stack) :
    (s.enter next v).number x = s.number x := by
  have hne : x ≠ v := fun heq => (hn.not_mem_of_new hnew).1 (heq ▸ hx)
  rw [Search.number_enter, if_neg hne]

theorem Numbered.low_enter {x : α} (hx : x ∈ s.stack) : (s.enter next v).low x = s.low x := by
  have hne : x ≠ v := fun heq => (hn.not_mem_of_new hnew).1 (heq ▸ hx)
  rw [Search.low_enter, if_neg hne]

theorem Numbered.enter (hU : U v) : (s.enter next v).Numbered next U where
  onStack := congrArg (v :: ·) hn.onStack
  indexed x := by
    show (if x = v then some s.current else s.index x).isSome ↔ x ∈ v :: s.stack ∨ x ∈ s.done
    by_cases hx : x = v
    · simp [hx]
    · rw [if_neg hx, hn.indexed, List.mem_cons, or_iff_right hx]
  within x hx := by
    by_cases hxv : x = v
    · exact hxv ▸ hU
    · rw [show (s.enter next v).index x = s.index x from if_neg hxv] at hx
      exact hn.within x hx
  disjoint x hx := by
    rcases List.mem_cons.1 hx with rfl | hx
    · exact (hn.not_mem_of_new hnew).2
    · exact hn.disjoint x hx
  current x hx := by
    show _ < s.current + 1
    rcases List.mem_cons.1 hx with rfl | hx
    · rw [Search.number_enter, if_pos rfl]
      exact Nat.lt_succ_self _
    · rw [hn.number_enter hnew hx]
      exact Nat.lt_succ_of_lt (hn.current x hx)
  sorted := by
    refine List.pairwise_cons.2 ⟨fun x hx => ?_, hn.sorted.imp_of_mem fun hx hy hlt => ?_⟩
    · rw [hn.number_enter hnew hx, Search.number_enter, if_pos rfl]
      exact hn.current x hx
    · rwa [hn.number_enter hnew hx, hn.number_enter hnew hy]
  frames := hn.frames.cons_cons v
  rest f hf := by
    rcases List.mem_cons.1 hf with rfl | hf
    · exact List.Subset.refl _
    · exact hn.rest f hf

/-- A new vertex is entered that all open ones lead to. -/
theorem Linked.enter (h : s.Linked next) (hreach : ∀ g, s.IsOpen g → CanReach next g v) :
    (s.enter next v).Linked next := by
  have hnumber : ∀ {x}, x ∈ s.stack → (s.enter next v).number x = s.number x :=
    hn.number_enter hnew
  have hlow : ∀ {x}, x ∈ s.stack → (s.enter next v).low x = s.low x := hn.low_enter hnew
  have hnumber' : (s.enter next v).number v = s.current := by rw [Search.number_enter, if_pos rfl]
  have hlow' : (s.enter next v).low v = s.current := by rw [Search.low_enter, if_pos rfl]
  have hopen : ∀ {x}, (s.enter next v).IsOpen x ↔ x = v ∨ s.IsOpen x := List.mem_cons
  have hstack : ∀ {x}, x ∈ (s.enter next v).stack ↔ x = v ∨ x ∈ s.stack := List.mem_cons
  have hmem : ∀ {x}, s.IsOpen x → x ∈ s.stack := hn.mem_stack_of_isOpen
  refine ⟨fun x hx => ?_, fun g x hg hx hle => ?_, fun x hx => ?_, fun x hx hclosed => ?_,
    fun x hx => ?_, fun x hx w hw => ?_, fun g x hg hx hlt => ?_⟩
  · rcases hstack.1 hx with rfl | hx
    · exact ⟨x, hopen.2 (.inl rfl), Nat.le_refl _⟩
    · obtain ⟨g, hg, hle⟩ := h.bottom x hx
      exact ⟨g, hopen.2 (.inr hg), by rwa [hnumber (hmem hg), hnumber hx]⟩
  · rcases hopen.1 hg with rfl | hg' <;> rcases hstack.1 hx with rfl | hx'
    · exact .refl
    · rw [hnumber', hnumber hx'] at hle
      exact absurd (hn.current x hx') (Nat.not_lt.2 hle)
    · exact hreach g hg'
    · rw [hnumber (hmem hg'), hnumber hx'] at hle
      exact h.above g x hg' hx' hle
  · rcases hstack.1 hx with rfl | hx
    · exact Nat.le_of_eq (hlow'.trans hnumber'.symm)
    · rw [hlow hx, hnumber hx]
      exact h.low_le x hx
  · rcases hstack.1 hx with rfl | hx
    · exact absurd (hopen.2 (.inl rfl)) hclosed
    · rw [hlow hx, hnumber hx]
      exact h.low_lt x hx fun hg => hclosed (hopen.2 (.inr hg))
  · rcases hstack.1 hx with rfl | hx
    · exact ⟨x, hstack.2 (.inl rfl), by rw [hnumber', hlow'], .refl⟩
    · obtain ⟨y, hy, heq, hp⟩ := h.back x hx
      exact ⟨y, hstack.2 (.inr hy), by rw [hnumber hy, hlow hx, heq], hp⟩
  · rcases hstack.1 hx with rfl | hx
    · exact .inr (.inr ⟨⟨x, next x⟩, List.mem_cons_self, rfl, hw⟩)
    · rcases h.looked x hx w hw with hdone | ⟨hw, hle⟩ | ⟨f, hf, hfx, hw⟩
      · exact .inl hdone
      · exact .inr (.inl ⟨hstack.2 (.inr hw), by rwa [hlow hx, hnumber hw]⟩)
      · exact .inr (.inr ⟨f, List.mem_cons_of_mem _ hf, hfx, hw⟩)
  · rcases hopen.1 hg with rfl | hg' <;> rcases hstack.1 hx with rfl | hx'
    · exact absurd hlt (Nat.lt_irrefl _)
    · rw [hnumber', hnumber hx'] at hlt
      exact absurd (hn.current x hx') (Nat.lt_asymm hlt)
    · exact .inr ⟨x, hopen.2 (.inl rfl), hlt, Nat.le_refl _⟩
    · rw [hnumber (hmem hg'), hnumber hx'] at hlt
      rw [hlow (hmem hg'), hlow hx']
      refine (h.passed g x hg' hx' hlt).imp id ?_
      rintro ⟨k, hk, hgk, hkx⟩
      refine ⟨k, hopen.2 (.inr hk), ?_, ?_⟩
      · rwa [hnumber (hmem hg'), hnumber (hmem hk)]
      · rwa [hnumber (hmem hk), hnumber hx']

end Enter

/-! ## Low links that go down -/

/-- An open vertex is found to lead back to the vertex whose number is its new low link. -/
theorem Sound.lower (h : s.Sound next U) {v : α} (hv : s.IsOpen v) {n : Nat}
    (hback : ∃ w ∈ s.stack, s.number w = min (s.low v) n ∧ CanReach next v w) :
    (s.lower v n).Sound next U := by
  have hle : ∀ x, (s.lower v n).low x ≤ s.low x := by
    intro x
    rw [low_lower]
    split
    · next heq =>
      rw [heq]
      exact Nat.min_le_left _ _
    · exact Nat.le_refl _
  have hother : ∀ {x}, x ≠ v → (s.lower v n).low x = s.low x := by
    intro x hx
    rw [low_lower, if_neg hx]
  obtain ⟨⟨hon, hindexed, hwithin, hdisjoint, hcurrent, hsorted, hframes, hrest⟩,
    ⟨hbottom, habove, hlow_le, hlow_lt, hbacks, hlooked, hpassed⟩, hemitted⟩ := h
  refine ⟨⟨hon, hindexed, hwithin, hdisjoint, hcurrent, hsorted, hframes, hrest⟩,
    ⟨hbottom, habove, fun x hx => ?_, fun x hx hclosed => ?_, fun x hx => ?_, fun x hx w hw => ?_,
      fun g x hg hx hlt => ?_⟩, hemitted⟩
  · exact Nat.le_trans (hle x) (hlow_le x hx)
  · exact Nat.lt_of_le_of_lt (hle x) (hlow_lt x hx hclosed)
  · by_cases hxv : x = v
    · subst hxv
      rw [low_lower, if_pos rfl]
      exact hback
    · rw [hother hxv]
      exact hbacks x hx
  · refine (hlooked x hx w hw).imp id (Or.imp (fun hw => ⟨hw.1, ?_⟩) id)
    exact Nat.le_trans (hle x) hw.2
  · by_cases hxv : x = v
    · exact .inr ⟨v, hv, hxv ▸ hlt, hxv ▸ Nat.le_refl _⟩
    · refine (hpassed g x hg hx hlt).imp (fun hpassed => ?_) id
      rw [hother hxv]
      exact Nat.le_trans (hle g) hpassed

/-- A vertex leads back to one on the stack. -/
theorem Sound.lower_number (h : s.Sound next U) {v w : α} (hv : s.IsOpen v) (hw : w ∈ s.stack)
    (hp : CanReach next v w) : (s.lower v (s.number w)).Sound next U := by
  refine h.lower hv ?_
  rcases Nat.le_total (s.low v) (s.number w) with hle | hle
  · rw [Nat.min_eq_left hle]
    exact h.linked.back v (h.numbered.mem_stack_of_isOpen hv)
  · rw [Nat.min_eq_right hle]
    exact ⟨w, hw, rfl, hp⟩

/-! ## Successors that were looked at -/

omit [DecidableEq α] in
/-- Successors leave the frames that are in a component or that the low link knows of. -/
theorem Sound.replaceFrames (h : s.Sound next U) {frames : List (Frame α)}
    (hvertex : frames.map (·.vertex) = s.frames.map (·.vertex))
    (hrest : ∀ f ∈ frames, f.rest ⊆ next f.vertex)
    (hlooked : ∀ f ∈ s.frames, ∀ w ∈ f.rest, w ∈ s.done ∨
      (w ∈ s.stack ∧ s.low f.vertex ≤ s.number w) ∨
      ∃ f' ∈ frames, f'.vertex = f.vertex ∧ w ∈ f'.rest) :
    ({ s with frames } : Search α).Sound next U := by
  have hopen : ∀ {x}, ({ s with frames } : Search α).IsOpen x ↔ s.IsOpen x := by
    intro x
    unfold IsOpen
    rw [hvertex]
  refine ⟨{ h.numbered with frames := hvertex ▸ h.numbered.frames, rest := hrest },
    { h.linked with
      bottom := fun x hx => ?_
      above := fun g x hg => h.linked.above g x (hopen.1 hg)
      low_lt := fun x hx hclosed => h.linked.low_lt x hx fun hg => hclosed (hopen.2 hg)
      looked := fun x hx w hw => ?_
      passed := fun g x hg hx hlt => ?_ }, h.emitted⟩
  · obtain ⟨g, hg, hle⟩ := h.linked.bottom x hx
    exact ⟨g, hopen.2 hg, hle⟩
  · rcases h.linked.looked x hx w hw with hdone | hknown | ⟨f, hf, rfl, hwf⟩
    · exact .inl hdone
    · exact .inr (.inl hknown)
    · exact hlooked f hf w hwf
  · refine (h.linked.passed g x (hopen.1 hg) hx hlt).imp id ?_
    rintro ⟨k, hk, hgk, hkx⟩
    exact ⟨k, hopen.2 hk, hgk, hkx⟩

/-! ## Leaving -/

omit [DecidableEq α] in
/-- A frame with nothing left to look at goes. -/
theorem exists_mem_below {v : α} {below : List (Frame α)} (hf : s.frames = ⟨v, []⟩ :: below)
    {x w : α} (hmem : ∃ f ∈ s.frames, f.vertex = x ∧ w ∈ f.rest) :
    ∃ f ∈ below, f.vertex = x ∧ w ∈ f.rest := by
  obtain ⟨f, hmem, hfx, hw⟩ := hmem
  rw [hf] at hmem
  rcases List.mem_cons.1 hmem with rfl | hmem
  · cases hw
  · exact ⟨f, hmem, hfx, hw⟩

section Leave

variable (h : s.Sound next U) {v : α} {below : List (Frame α)} (hf : s.frames = ⟨v, []⟩ :: below)

include h hf

omit [DecidableEq α] in
/-- No low link above the top open vertex is less than its own. -/
theorem Sound.low_top_le {x : α} (hx : x ∈ s.stack) (hle : s.number v ≤ s.number x) :
    s.low v ≤ s.low x := by
  have hv : s.IsOpen v := by simp [IsOpen, hf]
  rcases Nat.eq_or_lt_of_le hle with heq | hlt
  · have heq := h.numbered.eq_of_number_eq (h.numbered.mem_stack_of_isOpen hv) hx heq
    exact Nat.le_of_eq (congrArg s.low heq)
  · rcases h.linked.passed v x hv hx hlt with hlow | ⟨k, hk, hvk, -⟩
    · exact hlow
    · exact absurd (h.numbered.number_le_top hf hk) (Nat.not_le.2 hvk)

omit [DecidableEq α] in
theorem Sound.isOpen_below {x : α} :
    ({ s with frames := below } : Search α).IsOpen x ↔ s.IsOpen x ∧ x ≠ v := by
  unfold IsOpen
  dsimp only
  rw [hf, List.map_cons, List.mem_cons]
  constructor
  · intro hx
    obtain ⟨f, hmem, rfl⟩ := List.mem_map.1 hx
    refine ⟨.inr hx, fun heq => ?_⟩
    have hlt := h.numbered.number_lt_top hf hmem
    rw [heq] at hlt
    exact Nat.lt_irrefl _ hlt
  · rintro ⟨hx, hne⟩
    exact hx.resolve_left hne

omit [DecidableEq α] in
theorem Sound.numbered_below : ({ s with frames := below } : Search α).Numbered next U :=
  { h.numbered with
    frames := by
      have hframes := h.numbered.frames
      rw [hf] at hframes
      exact (List.sublist_cons_self _ _).trans hframes
    rest := fun f hmem => h.numbered.rest f (hf ▸ List.mem_cons_of_mem _ hmem) }

end Leave

omit [DecidableEq α] in
/-- A vertex that leads back to an earlier one is left, and stays on the stack. -/
theorem Sound.close (h : s.Sound next U) {v : α} {f : Frame α} {below : List (Frame α)}
    (hf : s.frames = ⟨v, []⟩ :: f :: below) (hlt : s.low v < s.number v)
    (hlow : s.low f.vertex ≤ s.low v) :
    ({ s with frames := f :: below } : Search α).Sound next U := by
  have hopen := fun {x} => h.isOpen_below hf (x := x)
  have hfv : s.number f.vertex < s.number v := h.numbered.number_lt_top hf List.mem_cons_self
  have hfopen : ({ s with frames := f :: below } : Search α).IsOpen f.vertex := by simp [IsOpen]
  refine ⟨h.numbered_below hf, { h.linked with
    bottom := fun x hx => ?_
    above := fun g x hg => h.linked.above g x (hopen.1 hg).1
    low_lt := fun x hx hclosed => ?_
    looked := fun x hx w hw => (h.linked.looked x hx w hw).imp id (Or.imp id (exists_mem_below hf))
    passed := fun g x hg hx hgx => ?_ }, h.emitted⟩
  · obtain ⟨g, hg, hle⟩ := h.linked.bottom x hx
    by_cases hgv : g = v
    · exact ⟨f.vertex, hfopen, Nat.le_trans (Nat.le_of_lt hfv) (hgv ▸ hle)⟩
    · exact ⟨g, hopen.2 ⟨hg, hgv⟩, hle⟩
  · by_cases hxv : x = v
    · exact hxv ▸ hlt
    · exact h.linked.low_lt x hx fun hg => hclosed (hopen.2 ⟨hg, hxv⟩)
  · rcases h.linked.passed g x (hopen.1 hg).1 hx hgx with hle | ⟨k, hk, hgk, hkx⟩
    · exact .inl hle
    · by_cases hkv : k = v
      · -- what lies above `v` is above `f` from now on
        subst hkv
        by_cases hgf : g = f.vertex
        · exact .inl (hgf ▸ Nat.le_trans hlow (h.low_top_le hf hx hkx))
        · refine .inr ⟨f.vertex, hfopen, ?_, Nat.le_trans (Nat.le_of_lt hfv) hkx⟩
          obtain ⟨f', hmem, rfl⟩ := List.mem_map.1 hg
          rcases List.mem_cons.1 hmem with rfl | hmem
          · exact absurd rfl hgf
          · exact (h.numbered_below hf).number_lt_top rfl hmem
      · exact .inr ⟨k, hopen.2 ⟨hk, hkv⟩, hgk, hkx⟩

/-! ## Components -/

omit [DecidableEq α] in
/-- Every vertex on the stack leads back to an open one, and not below a number that bounds all low
links from there on. -/
theorem Sound.exists_open (h : s.Sound next U) {b : Nat}
    (hb : ∀ x ∈ s.stack, b ≤ s.number x → b ≤ s.low x) {x : α} (hx : x ∈ s.stack)
    (hbx : b ≤ s.number x) : ∃ g, s.IsOpen g ∧ CanReach next x g ∧ b ≤ s.number g := by
  induction hm : s.number x using Nat.strongRecOn generalizing x with
  | _ m ih =>
    by_cases hopen : s.IsOpen x
    · exact ⟨x, hopen, .refl, hbx⟩
    · obtain ⟨w, hw, hwx, hp⟩ := h.linked.back x hx
      have hlt : s.number w < m := by
        rw [hwx, ← hm]
        exact h.linked.low_lt x hx hopen
      obtain ⟨g, hg, hp', hbg⟩ := ih _ hlt hw (hwx ▸ hb x hx hbx) rfl
      exact ⟨g, hg, hp.trans hp', hbg⟩

section Root

variable (h : s.Sound next U) {v : α} {below : List (Frame α)} (hf : s.frames = ⟨v, []⟩ :: below)
  (hroot : s.low v = s.number v)

include h hf hroot

omit [DecidableEq α] in
/-- All that lies above the first vertex of a component leads back to it. -/
theorem Sound.canReach_root {x : α} (hx : x ∈ s.stack) (hle : s.number v ≤ s.number x) :
    CanReach next x v := by
  obtain ⟨g, hg, hp, hvg⟩ := h.exists_open (b := s.number v)
    (fun y hy hvy => hroot ▸ h.low_top_le hf hy hvy) hx hle
  rwa [h.numbered.eq_top_of_le hf hg hvg] at hp

omit [DecidableEq α] in
/-- No path leads further down from there. -/
theorem Sound.next_subset {x w : α} (hx : x ∈ s.stack) (hle : s.number v ≤ s.number x)
    (hw : w ∈ next x) : w ∈ s.done ∨ w ∈ s.stack ∧ s.number v ≤ s.number w := by
  rcases h.linked.looked x hx w hw with hdone | ⟨hws, hxw⟩ | hmem
  · exact .inl hdone
  · refine .inr ⟨hws, Nat.le_trans ?_ hxw⟩
    rw [← hroot]
    exact h.low_top_le hf hx hle
  · obtain ⟨f, hfmem, rfl, -⟩ := exists_mem_below hf hmem
    exact absurd (h.numbered.number_lt_top hf hfmem) (Nat.not_lt.2 hle)

omit [DecidableEq α] in
/-- What lies above the first vertex of a component is the component. -/
theorem Sound.mem_component_iff {u w : α} (hu : u ∈ s.stack ∧ s.number v ≤ s.number u) :
    (w ∈ s.stack ∧ s.number v ≤ s.number w) ↔ CanReach next u w ∧ CanReach next w u := by
  have hv : s.IsOpen v := by simp [IsOpen, hf]
  constructor
  · intro hw
    have hup := fun {x} => h.linked.above v x hv
    exact ⟨(h.canReach_root hf hroot hu.1 hu.2).trans (hup hw.1 hw.2),
      (h.canReach_root hf hroot hw.1 hw.2).trans (hup hu.1 hu.2)⟩
  · rintro ⟨huw, hwu⟩
    have hclosed : ∀ x, x ∈ s.done ∨ x ∈ s.stack ∧ s.number v ≤ s.number x → ∀ y ∈ next x,
        y ∈ s.done ∨ y ∈ s.stack ∧ s.number v ≤ s.number y := by
      rintro x (hx | hx) y hy
      · exact .inl (h.emitted.closed x hx hy)
      · exact h.next_subset hf hroot hx.1 hx.2 hy
    refine (huw.closed hclosed (.inr hu)).resolve_left fun hw => ?_
    exact h.numbered.disjoint u hu.1 (hwu.closed (fun x hx _ hy => h.emitted.closed x hx hy) hw)

end Root

omit [DecidableEq α] in
/-- One more component after those that it leads to. -/
theorem Emitted.append {found : List (List α)} (h : Emitted next found) {C : List α}
    (hnodup : C.Nodup) (hne : C ≠ [])
    (hcomponent : ∀ u ∈ C, ∀ w, w ∈ C ↔ CanReach next u w ∧ CanReach next w u)
    (hclosed : ∀ v ∈ C, ∀ w ∈ next v, w ∈ found.flatten ∨ w ∈ C)
    (hdisjoint : ∀ v ∈ C, v ∉ found.flatten) : Emitted next (found ++ [C]) where
  nodup D hD := by
    rcases List.mem_append.1 hD with hD | hD
    · exact h.nodup D hD
    · exact List.mem_singleton.1 hD ▸ hnodup
  ne_nil D hD := by
    rcases List.mem_append.1 hD with hD | hD
    · exact h.ne_nil D hD
    · exact List.mem_singleton.1 hD ▸ hne
  component D hD := by
    rcases List.mem_append.1 hD with hD | hD
    · exact h.component D hD
    · exact List.mem_singleton.1 hD ▸ hcomponent
  closed v hv w hw := by
    rw [List.flatten_append, List.flatten_singleton, List.mem_append] at hv ⊢
    rcases hv with hv | hv
    · exact .inl (h.closed v hv hw)
    · exact hclosed v hv w hw
  ordered := by
    refine List.pairwise_append.2 ⟨h.ordered, List.pairwise_singleton _ _, ?_⟩
    intro D hD E hE u hu w hw hp
    rw [List.mem_singleton.1 hE] at hw
    have hmem : u ∈ found.flatten := List.mem_flatten.2 ⟨D, hD, hu⟩
    exact hdisjoint w hw (hp.closed (fun x hx _ hy => h.closed x hx hy) hmem)

theorem Cut.not_mem_under {v x : α} {C under : List α} (hcut : s.Cut v C under) (hx : x ∈ under) :
    x ∉ C := fun hxC =>
  Nat.not_lt.2 ((hcut.mem x).1 hxC).2 ((hcut.mem_under x).1 hx).2

theorem Cut.filter_not_mem {v : α} {C under : List α} (hcut : s.Cut v C under) :
    s.stack.filter (· ∉ C) = under := by
  have hnone : C.filter (· ∉ C) = [] := by simp
  have hall : under.filter (· ∉ C) = under :=
    List.filter_eq_self.2 fun x hx => decide_eq_true (hcut.not_mem_under hx)
  rw [hcut.stack, List.filter_append, hnone, hall, List.nil_append]

section Cut

variable (h : s.Sound next U) {v : α} {below : List (Frame α)} (hf : s.frames = ⟨v, []⟩ :: below)
  {C under : List α} (hcut : s.Cut v C under)

include h hcut

theorem Sound.pop_eq : Search.pop { s with frames := below } v = { s with
    frames := below, stack := under, onStack := under, found := s.found ++ [C] } := by
  unfold Search.pop
  dsimp only
  rw [hcut.popTo, h.numbered.onStack, hcut.filter_not_mem]

include hf

theorem Sound.numbered_pop : ({ s with
    frames := below, stack := under, onStack := under, found := s.found ++ [C] } :
      Search α).Numbered next U where
  onStack := rfl
  indexed x := by
    show (s.index x).isSome ↔ x ∈ under ∨ x ∈ (s.found ++ [C]).flatten
    rw [h.numbered.indexed, hcut.stack, List.mem_append, List.flatten_append,
      List.flatten_singleton, List.mem_append]
    unfold done
    tauto
  within := h.numbered.within
  disjoint x hx := by
    show x ∉ (s.found ++ [C]).flatten
    rw [List.flatten_append, List.flatten_singleton, List.mem_append]
    rintro (hxd | hxC)
    · exact h.numbered.disjoint x ((hcut.mem_under x).1 hx).1 hxd
    · exact hcut.not_mem_under hx hxC
  current x hx := h.numbered.current x ((hcut.mem_under x).1 hx).1
  sorted := by
    have hsorted := h.numbered.sorted
    rw [hcut.stack] at hsorted
    exact (List.pairwise_append.1 hsorted).2.1
  frames := by
    -- no open vertex other than `v` goes with the component
    have hframes := (h.numbered_below hf).frames.filter (· ∉ C)
    rw [hcut.filter_not_mem, List.filter_eq_self.2] at hframes
    · exact hframes
    · intro x hx
      obtain ⟨f, hmem, rfl⟩ := List.mem_map.1 hx
      refine decide_eq_true fun hfC => ?_
      exact Nat.not_lt.2 ((hcut.mem _).1 hfC).2 (h.numbered.number_lt_top hf hmem)
  rest := (h.numbered_below hf).rest

theorem Sound.linked_pop : ({ s with
    frames := below, stack := under, onStack := under, found := s.found ++ [C] } :
      Search α).Linked next := by
  have hopen := fun {x} => h.isOpen_below hf (x := x)
  have hunder := fun {x} (hx : x ∈ under) => (hcut.mem_under x).1 hx
  constructor
  case bottom =>
    intro x hx
    obtain ⟨g, hg, hle⟩ := h.linked.bottom x (hunder hx).1
    refine ⟨g, hopen.2 ⟨hg, ?_⟩, hle⟩
    rintro rfl
    exact Nat.not_lt.2 hle (hunder hx).2
  case above =>
    intro g x hg hx hle
    exact h.linked.above g x (hopen.1 hg).1 (hunder hx).1 hle
  case low_le =>
    intro x hx
    exact h.linked.low_le x (hunder hx).1
  case low_lt =>
    intro x hx hclosed
    refine h.linked.low_lt x (hunder hx).1 fun hg => hclosed (hopen.2 ⟨hg, ?_⟩)
    rintro rfl
    exact Nat.lt_irrefl _ (hunder hx).2
  case back =>
    intro x hx
    obtain ⟨w, hw, hwx, hp⟩ := h.linked.back x (hunder hx).1
    refine ⟨w, (hcut.mem_under w).2 ⟨hw, ?_⟩, hwx, hp⟩
    rw [hwx]
    exact Nat.lt_of_le_of_lt (h.linked.low_le x (hunder hx).1) (hunder hx).2
  case looked =>
    intro x hx w hw
    show w ∈ (s.found ++ [C]).flatten ∨ _
    rw [List.flatten_append, List.flatten_singleton, List.mem_append]
    rcases h.linked.looked x (hunder hx).1 w hw with hwd | ⟨hws, hle⟩ | hmem
    · exact .inl (.inl hwd)
    · rcases Nat.lt_or_ge (s.number w) (s.number v) with hwv | hvw
      · exact .inr (.inl ⟨(hcut.mem_under w).2 ⟨hws, hwv⟩, hle⟩)
      · exact .inl (.inr ((hcut.mem w).2 ⟨hws, hvw⟩))
    · exact .inr (.inr (exists_mem_below hf hmem))
  case passed =>
    intro g x hg hx hlt
    refine (h.linked.passed g x (hopen.1 hg).1 (hunder hx).1 hlt).imp id ?_
    rintro ⟨k, hk, hgk, hkx⟩
    refine ⟨k, hopen.2 ⟨hk, ?_⟩, hgk, hkx⟩
    rintro rfl
    exact Nat.not_lt.2 hkx (hunder hx).2

theorem Sound.emitted_append (hv : v ∈ s.stack) (hroot : s.low v = s.number v) :
    Emitted next (s.found ++ [C]) := by
  have hC := fun {x} (hx : x ∈ C) => (hcut.mem x).1 hx
  have hnodup : (C ++ under).Nodup := hcut.stack ▸ h.numbered.nodup
  refine h.emitted.append (List.nodup_append.1 hnodup).1 ?_ ?_ ?_ ?_
  · exact List.ne_nil_of_mem ((hcut.mem v).2 ⟨hv, Nat.le_refl _⟩)
  · intro u hu w
    rw [hcut.mem w]
    exact h.mem_component_iff hf hroot (hC hu)
  · intro x hx w hw
    rw [hcut.mem w]
    exact h.next_subset hf hroot (hC hx).1 (hC hx).2 hw
  · exact fun x hx => h.numbered.disjoint x (hC hx).1

end Cut

/-- The first vertex of a component is left, and the component taken off the stack. -/
theorem Sound.pop (h : s.Sound next U) {v : α} {below : List (Frame α)}
    (hf : s.frames = ⟨v, []⟩ :: below) (hroot : s.low v = s.number v) :
    (Search.pop { s with frames := below } v).Sound next U := by
  have hv : v ∈ s.stack := h.numbered.mem_stack_of_isOpen (by simp [IsOpen, hf])
  obtain ⟨C, under, hcut⟩ := h.numbered.exists_cut hv
  rw [h.pop_eq hcut]
  exact ⟨h.numbered_pop hf hcut, h.linked_pop hf hcut, h.emitted_append hf hcut hv hroot⟩

/-! ## Steps -/

omit [DecidableEq α] in
/-- If the top frame is the only one, its vertex leads back to none before it. -/
theorem Sound.low_of_last (h : s.Sound next U) {v : α} (hf : s.frames = [⟨v, []⟩]) :
    s.low v = s.number v := by
  have hv : v ∈ s.stack := h.numbered.mem_stack_of_isOpen (by simp [IsOpen, hf])
  refine Nat.le_antisymm (h.linked.low_le v hv) ?_
  obtain ⟨w, hw, hwv, -⟩ := h.linked.back v hv
  obtain ⟨g, hg, hle⟩ := h.linked.bottom w hw
  have hgv : g = v := by simpa [IsOpen, hf] using hg
  rw [← hwv]
  exact hgv ▸ hle

/-- After a component has been taken off, its low link says nothing new to the vertex before. -/
theorem Sound.pop_passDown (h : s.Sound next U) {v : α} {below : List (Frame α)}
    (hf : s.frames = ⟨v, []⟩ :: below) (hroot : s.low v = s.number v) :
    (passDown (Search.pop { s with frames := below } v) v).Sound next U := by
  have hpop := h.pop hf hroot
  unfold passDown
  cases below with
  | nil => exact hpop
  | cons f fs =>
    have hopen : (Search.pop { s with frames := f :: fs } v).IsOpen f.vertex := List.mem_cons_self
    have hfs : f.vertex ∈ s.stack := h.numbered.mem_stack_of_isOpen (by simp [IsOpen, hf])
    have hle : s.low f.vertex ≤ s.low v := by
      rw [hroot]
      exact Nat.le_trans (h.linked.low_le _ hfs)
        (Nat.le_of_lt (h.numbered.number_lt_top hf List.mem_cons_self))
    refine hpop.lower hopen ?_
    show ∃ w ∈ _, _ = min (s.low f.vertex) (s.low v) ∧ _
    rw [Nat.min_eq_left hle]
    exact hpop.linked.back _ (hpop.numbered.mem_stack_of_isOpen hopen)

theorem Sound.close_passDown (h : s.Sound next U) {v : α} {below : List (Frame α)}
    (hf : s.frames = ⟨v, []⟩ :: below) (hroot : s.low v ≠ s.number v) :
    (passDown { s with frames := below } v).Sound next U := by
  have hv : v ∈ s.stack := h.numbered.mem_stack_of_isOpen (by simp [IsOpen, hf])
  unfold passDown
  cases below with
  | nil => exact absurd (h.low_of_last hf) hroot
  | cons f fs =>
    have hopen : s.IsOpen f.vertex := by simp [IsOpen, hf]
    have hlt : s.number f.vertex < s.number v := h.numbered.number_lt_top hf List.mem_cons_self
    have hne : v ≠ f.vertex := fun heq => Nat.lt_irrefl _ (heq ▸ hlt)
    have hfv : CanReach next f.vertex v := h.linked.above _ _ hopen hv (Nat.le_of_lt hlt)
    obtain ⟨w, hw, hwv, hp⟩ := h.linked.back v hv
    have hlower : (s.lower f.vertex (s.low v)).Sound next U :=
      hwv ▸ h.lower_number hopen hw (hfv.trans hp)
    refine hlower.close hf ?_ ?_
    · rw [low_lower, if_neg hne]
      exact Nat.lt_of_le_of_ne (h.linked.low_le v hv) hroot
    · rw [low_lower, low_lower, if_pos rfl, if_neg hne]
      exact Nat.min_le_right _ _

theorem Sound.leave (h : s.Sound next U) {v : α} {below : List (Frame α)}
    (hf : s.frames = ⟨v, []⟩ :: below) :
    (Search.leave { s with frames := below } v).Sound next U := by
  unfold Search.leave
  split
  · next hroot => exact h.pop_passDown hf hroot
  · next hroot => exact h.close_passDown hf hroot

omit [DecidableEq α] in
/-- A successor is looked at once it has a component or the low link knows of it. -/
theorem Sound.looked (h : s.Sound next U) {v w : α} {rest : List α} (top : List (Frame α))
    {below : List (Frame α)} (hf : s.frames = top ++ ⟨v, w :: rest⟩ :: below)
    (hw : w ∈ s.done ∨ w ∈ s.stack ∧ s.low v ≤ s.number w) :
    ({ s with frames := top ++ ⟨v, rest⟩ :: below } : Search α).Sound next U := by
  have hother : ∀ f ∈ top ++ ⟨v, rest⟩ :: below, f = ⟨v, rest⟩ ∨ f ∈ s.frames := by
    intro f hmem
    rw [hf]
    simp only [List.mem_append, List.mem_cons] at hmem ⊢
    tauto
  refine h.replaceFrames (by simp [hf]) (fun f hmem => ?_) (fun f hmem x hx => ?_)
  · rcases hother f hmem with rfl | hmem
    · have hrest := h.numbered.rest ⟨v, w :: rest⟩ (by simp [hf])
      exact fun x hx => hrest (List.mem_cons_of_mem _ hx)
    · exact h.numbered.rest f hmem
  · rw [hf] at hmem
    rcases List.mem_append.1 hmem with hmem | hmem
    · exact .inr (.inr ⟨f, List.mem_append_left _ hmem, rfl, hx⟩)
    · rcases List.mem_cons.1 hmem with rfl | hmem
      · rcases List.mem_cons.1 hx with rfl | hx
        · exact hw.imp id .inl
        · exact .inr (.inr ⟨⟨v, rest⟩, by simp, rfl, hx⟩)
      · exact .inr (.inr ⟨f, by simp [hmem], rfl, hx⟩)

section Step

variable {V : List α} (hU : ∀ v, U v → ∀ w ∈ next v, U w) (hV : ∀ v, U v → v ∈ V)

include hU hV

theorem Sound.look (h : s.Sound next U) {v w : α} {rest : List α} {below : List (Frame α)}
    (hf : s.frames = ⟨v, w :: rest⟩ :: below) :
    (Search.look next V { s with frames := ⟨v, rest⟩ :: below } v w).Sound next U := by
  have hopen : s.IsOpen v := by simp [IsOpen, hf]
  have hv : v ∈ s.stack := h.numbered.mem_stack_of_isOpen hopen
  have hw : w ∈ next v := h.numbered.rest ⟨v, w :: rest⟩ (by simp [hf]) List.mem_cons_self
  have hUw : U w := hU v (h.numbered.within v ((h.numbered.indexed v).2 (.inl hv))) w hw
  have hlow := h.linked.low_le v hv
  unfold Search.look
  split
  · next hnew =>
    have hnone : s.index w = none := Option.isNone_iff_eq_none.1 (Bool.and_eq_true_iff.1 hnew).1
    have hreach : ∀ g, s.IsOpen g → CanReach next g w := fun g hg =>
      (h.linked.above g v hg hv (h.numbered.number_le_top hf hg)).tail hw
    have henter : (s.enter next w).Sound next U :=
      ⟨h.numbered.enter hnone hUw, h.linked.enter h.numbered hnone hreach, h.emitted⟩
    refine henter.looked [⟨w, next w⟩] (congrArg (_ :: ·) hf)
      (.inr ⟨List.mem_cons_self, ?_⟩)
    rw [h.numbered.low_enter hnone hv, Search.number_enter, if_pos rfl]
    exact Nat.le_of_lt (Nat.lt_of_le_of_lt hlow (h.numbered.current v hv))
  · next hold =>
    have hindex : w ∈ s.stack ∨ w ∈ s.done := by
      rw [← h.numbered.indexed, Option.isSome_iff_ne_none]
      exact fun hnone => hold (Bool.and_eq_true_iff.2
        ⟨Option.isNone_iff_eq_none.2 hnone, List.contains_iff_mem.2 (hV w hUw)⟩)
    have hon : s.onStack.contains w = true ↔ w ∈ s.stack := by
      rw [h.numbered.onStack, List.contains_iff_mem]
    split
    · next hmem =>
      have hws : w ∈ s.stack := hon.1 hmem
      refine (h.lower_number hopen hws (.single hw)).looked [] hf (.inr ⟨hws, ?_⟩)
      rw [low_lower, if_pos rfl]
      exact Nat.min_le_right _ _
    · next hmem =>
      exact h.looked [] hf (.inl (hindex.resolve_left fun hws => hmem (hon.2 hws)))

theorem Sound.step (h : s.Sound next U) {f : Frame α} {below : List (Frame α)}
    (hf : s.frames = f :: below) : (s.step next V f below).Sound next U := by
  obtain ⟨v, rest⟩ := f
  unfold Search.step
  cases rest with
  | nil => exact h.leave hf
  | cons w rest => exact h.look hU hV hf

end Step

end Search

end EscapeFlow.Schedule
