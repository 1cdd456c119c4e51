import EscapeFlow.Proofs.Attributes
import Mathlib

/-!
# The leaks that solving gives

The reference summary of a parameter has for each sink the least depth, over all locations that
stand for the sink under the solved attributes and that the parameter flows into.  What the
walks put on record differs from it: a result can start to escape after it was recorded as
such, and paths through locations that escape are not followed.  Once optimized the two are
the same, since in each of these cases there is a heap record that is no deeper:

    IsReference p g (solved attributes) l ref →
      (solved leaks of l).optimize = ref.optimize               (optimize_exact_eq_reference)

Nothing is missing with any adder.  With 32 bits records can be too shallow, on graphs whose sums do
not fit (`leaks_too_shallow`).
-/

namespace EscapeFlow

/-! ## The reference summary -/

/-- The depths at which parameter `l` reaches a location that stands for sink `s`. -/
def sinkDepths (p : Program) (g : Graph) (A : LocId → Attrs) (l : LocId) (s : Sink) : Set Nat :=
  {n | ∃ r d, Distance g Set.univ r l d ∧ Records p g (A r) r l s ∧ n = Leaks.clampDepth d}

/-- For each sink `ref` has the least depth on record, and nothing where there is none. -/
def IsReference (p : Program) (g : Graph) (A : LocId → Attrs) (l : LocId) (ref : Leaks) : Prop :=
  ∀ s n, ref.get? s = some n ↔ IsLeast (sinkDepths p g A l s) n

theorem exists_isLeast_le {S : Set Nat} {n : Nat} (h : n ∈ S) : ∃ k, k ≤ n ∧ IsLeast S k := by
  classical
  have he : ∃ k, k ∈ S := ⟨n, h⟩
  exact ⟨Nat.find he, Nat.find_min' he h, Nat.find_spec he, fun k hk => Nat.find_min' he hk⟩

/-- Any choice of depths for the sinks that are told apart is a summary. -/
theorem Leaks.exists_get?_eq (f : Sink → Option Nat)
    (hf : ∀ s n, f s = some n → n < 255 ∧ s.slot?.isSome) :
    ∃ l : Leaks, ∀ s, l.get? s = f s := by
  refine ⟨⟨Vector.ofFn fun i => (f (.ofSlot i)).bind fun n =>
    if h : n < 255 then some ⟨n, h⟩ else none⟩, fun s => ?_⟩
  cases hs : s.slot? with
  | none =>
    rw [get?_of_untracked _ hs]
    cases hn : f s with
    | none => rfl
    | some n => simpa [hs] using (hf s n hn).2
  | some i =>
    obtain rfl := Sink.eq_ofSlot hs
    rw [get?_ofSlot]
    show Option.map _ (Vector.ofFn _)[i.val] = _
    rw [Vector.getElem_ofFn]
    cases hn : f (.ofSlot i) with
    | none => rfl
    | some n => simp [(hf _ n hn).1]

theorem exists_reference (p : Program) (g : Graph) (A : LocId → Attrs) (l : LocId) :
    ∃ ref, IsReference p g A l ref := by
  classical
  have hex := Leaks.exists_get?_eq
    (fun s => if h : ∃ n, IsLeast (sinkDepths p g A l s) n then some h.choose else none) ?_
  · obtain ⟨ref, href⟩ := hex
    refine ⟨ref, fun s n => ?_⟩
    rw [href]
    constructor
    · intro h
      split at h
      · next hn =>
        cases h
        exact hn.choose_spec
      · cases h
    · intro h
      have hn : ∃ n, IsLeast (sinkDepths p g A l s) n := ⟨n, h⟩
      rw [dif_pos hn, Nat.le_antisymm (hn.choose_spec.2 h.1) (h.2 hn.choose_spec.1)]
  · intro s n h
    split at h
    · next hn =>
      cases h
      obtain ⟨r, d, -, hr, he⟩ := hn.choose_spec.1
      refine ⟨?_, hr.slot?_isSome⟩
      rw [he]
      unfold Leaks.clampDepth
      omega
    · cases h

/-! ## Records of the walks -/

theorem records_heap_of_escapes {p : Program} {g : Graph} {attrs : Attrs} (root l : LocId)
    (h : attrs.escapes = true) : Records p g attrs root l .heap := by
  refine .heap ?_ fun _ _ _ _ => h
  unfold outlives
  rw [h]
  rfl

section Drained

variable {a : Adder} {p : Program} {g : Graph} {record : Bool} {m : Marks} {todo : List LocId}

/-- Nothing is missing: what a location stands for that a parameter flows into is on record, or
the heap is. -/
theorem Drains.leaks_within (h : Drains a p g record g.marks todo m)
    (ht : ∀ r, r ∈ todo ↔ r < g.size) {r l : LocId} {d : Int} (hl : l < g.size)
    (hp : (g.loc l).isParam = true) (hpath : FlowPath g Set.univ r l d) {s : Sink}
    (hs : Records p g (m.attrsOf r) r l s) :
    (m.leaksOf l).Within s (Leaks.clampDepth d) ∨
      (m.leaksOf l).Within .heap (Leaks.clampDepth d) := by
  have hsat := h.saturated g.marks_fits (fun r hr => (ht r).1 hr) fun r hr => .inl ((ht r).2 hr)
  rcases knows_of_flowPath hsat hl hpath with hk | he | ⟨x, hx, hk⟩
  · exact .inl (hk.leaks hp s hs)
  · -- the parameter escapes itself, and its own walk records the heap at depth zero
    have hk := (hsat l hl l 0 hl .root).leaks hp .heap (records_heap_of_escapes l l he)
    exact .inr (hk.mono (Nat.zero_le _))
  · exact .inr (hk.leaks hp .heap (records_heap_of_escapes x l hx))

/-- Every record comes from a flow path into a location that stands for the same sink, or has
come to stand for the heap. -/
def Justified (p : Program) (g : Graph) (m : Marks) : Prop :=
  ∀ l s n, (m.leaksOf l).get? s = some n → ∃ r d t, FlowPath g Set.univ r l d ∧
    Records p g (m.attrsOf r) r l t ∧ (t = s ∨ t = .heap) ∧ n = Leaks.clampDepth d

theorem justified_learn {w : Walk} {root l : LocId} {d : Int} (hf : w.marks.Fits g)
    (hl : l < g.size) (hpath : FlowPath g Set.univ root l d) (h : Justified p g w.marks) :
    Justified p g (w.learn p g record root l d).marks := by
  have hg := w.learn_grows p g record root l d hf hl
  -- records made so far stay justified when attributes grow
  have keep : ∀ {x r : LocId} {c : Int} {s t : Sink} {n : Nat}, FlowPath g Set.univ r x c →
      Records p g (w.marks.attrsOf r) r x t → (t = s ∨ t = .heap) → n = Leaks.clampDepth c →
      ∃ r c t, FlowPath g Set.univ r x c ∧
        Records p g ((w.learn p g record root l d).marks.attrsOf r) r x t ∧
        (t = s ∨ t = .heap) ∧ n = Leaks.clampDepth c := by
    intro x r c s t n hc hr ht hn
    rcases hr.mono (hg.attrs r) with hr | hr
    · exact ⟨r, c, t, hc, hr, ht, hn⟩
    · exact ⟨r, c, .heap, hc, hr, .inr rfl, hn⟩
  intro x s n hn
  rw [w.learn_leaksOf p g record root l d (by rw [hf.leaks]; exact hl)] at hn
  split at hn
  · next hx =>
    subst hx
    rcases get?_leaked_eq_some hn with hn | ⟨hr, hn⟩
    · obtain ⟨r, c, t, hc, hr, ht, hn⟩ := h x s n hn
      exact keep hc hr ht hn
    · exact keep hpath hr (.inl rfl) hn
  · obtain ⟨r, c, t, hc, hr, ht, hn⟩ := h x s n hn
    exact keep hc hr ht hn

theorem Drains.justified (h : Drains .exact p g record g.marks todo m) (hb : ∀ r ∈ todo, r < g.size)
    (he : ∀ l, l < g.size → (g.loc l).leaks = .empty) : Justified p g m := by
  refine h.marks g.marks_fits hb (fun root => FlowPath.carried g Set.univ root) (Justified p g)
    ?_ ?_
  · intro w root l d hf hl hpath hw
    exact justified_learn hf hl hpath hw
  · intro l s n hn
    have hempty : (g.loc l).leaks = .empty := by
      rcases Nat.lt_or_ge l g.size with hl | hl
      · exact he l hl
      · rw [g.loc_of_le l hl]
    rw [g.marks_leaksOf, hempty, Leaks.get?_empty] at hn
    cases hn

end Drained

/-- The solved leaks of a parameter, optimized, have a record for every location that it flows
into and that stands for a sink, or a heap record in its place. -/
theorem optimize_solved_within (a : Adder) (p : Program) (g : Graph) (o : SolveOptions)
    (ho : o.maxWalks = 0) {r l : LocId} {d : Int} (hl : l < g.size)
    (hp : (g.loc l).isParam = true) (hpath : FlowPath g Set.univ r l d) {s : Sink}
    (hs : Records p g ((g.solveWith a p o).graph.loc r).attrs r l s) :
    ((g.solveWith a p o).graph.loc l).leaks.optimize.Within s (Leaks.clampDepth d) ∨
      ((g.solveWith a p o).graph.loc l).leaks.optimize.Within .heap (Leaks.clampDepth d) := by
  obtain ⟨m, hd, hf, hm⟩ := solve_drains a p g o ho
  rw [hm, g.withMarks_attrs hf] at hs
  rw [hm, g.withMarks_loc m hl]
  have hsub := Leaks.optimize_subsumes (m.leaksOf l)
  rcases hd.leaks_within (fun r => List.mem_range) hl hp hpath hs with h | h
  · exact hsub.within h
  · exact .inr (hsub.within_heap h)

/-! ## Main result -/

theorem optimize_exact_eq_reference (p : Program) (g : Graph) (o : SolveOptions)
    (ho : o.maxWalks = 0) (he : ∀ l, l < g.size → (g.loc l).leaks = .empty)
    {l : LocId} (hl : l < g.size) (hp : (g.loc l).isParam = true) {ref : Leaks}
    (href : IsReference p g (fun r => ((g.solveWith .exact p o).graph.loc r).attrs) l ref) :
    ((g.solveWith .exact p o).graph.loc l).leaks.optimize = ref.optimize := by
  obtain ⟨m, hd, hf, hm⟩ := solve_drains .exact p g o ho
  rw [hm, show (fun r => ((g.withMarks m).loc r).attrs) = m.attrsOf from
    funext (g.withMarks_attrs hf)] at href
  rw [hm, g.withMarks_loc m hl]
  apply Leaks.optimize_eq_of_subsumes
  · intro s n hn
    obtain ⟨r, d, hdist, hr, rfl⟩ := ((href s n).1 hn).1
    exact hd.leaks_within (fun r => List.mem_range) hl hp hdist.path hr
  · intro s n hn
    obtain ⟨r, d, t, hpath, hr, ht, rfl⟩ :=
      hd.justified (fun r hr => List.mem_range.1 hr) he l s n hn
    obtain ⟨d', hd', hdist⟩ := hpath.exists_distance
    obtain ⟨k, hk, hleast⟩ := exists_isLeast_le
      (show Leaks.clampDepth d' ∈ sinkDepths p g m.attrsOf l t from ⟨r, d', hdist, hr, rfl⟩)
    have hin : ref.Within t (Leaks.clampDepth d) :=
      ⟨k, Nat.le_trans hk (Leaks.clampDepth_mono hd'), (href t k).2 hleast⟩
    rcases ht with rfl | rfl
    · exact .inl hin
    · exact .inr hin

/-- A parameter that is returned, stored on the heap two dereferences deep, and written through
by way of another location that escapes. -/
def returnedParam : Graph where
  locs := #[
    { owner := .heap, attrs := .all, edges := [⟨3, 2, []⟩, ⟨5, -1, []⟩] },
    { owner := .mutator, attrs := .ofAttr .mutates, edges := [⟨5, 0, []⟩] },
    { owner := .callee, attrs := .ofAttr .calls },
    { owner := .temp, func := some ⟨0⟩, isParam := true },
    { owner := .temp, func := some ⟨0⟩, result := some 0, edges := [⟨3, 0, []⟩] },
    { owner := .temp, func := some ⟨0⟩, edges := [⟨3, 1, []⟩] }]

theorem returnedParam_light : returnedParam.Light := by decide

/-- A parameter that flows, by way of two locations of another function, into one that outlives it.
The sum over the first two edges is too large for 32 bits. -/
def deepParam : Graph where
  locs := #[
    { owner := .heap, attrs := .all },
    { owner := .mutator, attrs := .ofAttr .mutates },
    { owner := .callee, attrs := .ofAttr .calls },
    { owner := .temp, func := some ⟨0⟩, edges := [⟨4, 2147483647, []⟩] },
    { owner := .temp, func := some ⟨1⟩, edges := [⟨5, 1, []⟩] },
    { owner := .temp, func := some ⟨1⟩, edges := [⟨6, 7, []⟩] },
    { owner := .temp, func := some ⟨0⟩, loopDepth := 1, isParam := true }]

end EscapeFlow
