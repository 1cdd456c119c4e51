import EscapeFlow.Flow.Walk
import EscapeFlow.Proofs.LeakOrder

/-!
# What a root teaches

A location that flows into a root learns attributes from it, and a parameter puts the sinks on
record that the root stands for.  Here attributes are ordered by the four bits that mean
something; `Records` says which sinks a root stands for, and `leaked` adds exactly these:

    s ∈ recordedSinks p g attrs root l ↔ Records p g attrs root l s      (mem_recordedSinks)

Both grow with the attributes of the root, except that a result which starts to escape no
longer stands for itself but for the heap (`Records.mono`).
-/

namespace EscapeFlow

namespace Attrs

/-- `t` has each of the four attributes that `s` has. -/
instance : LE Attrs := ⟨fun s t => ∀ a, s.has a = true → t.has a = true⟩

theorem le_refl (s : Attrs) : s ≤ s := fun _ h => h

theorem le_trans {s t u : Attrs} (h : s ≤ t) (h' : t ≤ u) : s ≤ u := fun a ha => h' a (h a ha)

theorem empty_le (s : Attrs) : empty ≤ s := by
  intro a ha
  simp at ha

theorem le_all (s : Attrs) : s ≤ all := fun a _ => has_all a

theorem le_union_left (s t : Attrs) : s ≤ s.union t := by
  intro a ha
  simp [ha]

theorem le_union_right (s t : Attrs) : t ≤ s.union t := by
  intro a ha
  simp [ha]

theorem union_le {s t u : Attrs} (h : s ≤ u) (h' : t ≤ u) : s.union t ≤ u := by
  intro a ha
  rw [has_union, Bool.or_eq_true] at ha
  exact ha.elim (h a) (h' a)

theorem gains_iff (s t : Attrs) : s.gains t = true ↔ ¬ t ≤ s := by
  constructor
  · intro h hle
    obtain ⟨a, -, ha⟩ := List.any_eq_true.1 h
    rw [Bool.and_eq_true, Bool.not_eq_true'] at ha
    rw [hle a ha.1] at ha
    cases ha.2
  · intro h
    apply Classical.byContradiction
    intro hg
    refine h fun a ha => ?_
    cases hs : s.has a with
    | true => rfl
    | false => exact absurd (List.any_eq_true.2 ⟨a, by cases a <;> decide, by simp [ha, hs]⟩) hg

end Attrs

/-! ## What a root teaches -/

theorem outlives_mono (p : Program) (g : Graph) {s t : Attrs} (h : s ≤ t) {root l : LocId}
    (ho : outlives p g s root l = true) : outlives p g t root l = true := by
  unfold outlives at ho ⊢
  rw [Bool.or_eq_true] at ho ⊢
  exact ho.imp (h .escapes) id

/-- A location that is reached with a smaller number learns no less. -/
theorem learned_anti (p : Program) (g : Graph) (attrs : Attrs) (root l : LocId) {d d' : Int}
    (h : d ≤ d') : learned p g attrs root l d' ≤ learned p g attrs root l d := by
  unfold learned
  apply Attrs.union_le
  · split
    · next hd =>
      rw [if_pos (by omega : d < 0)]
      exact Attrs.le_union_left _ _
    · exact Attrs.empty_le _
  · split
    · next hd =>
      rw [if_pos (by omega : d ≤ 0)]
      exact Attrs.le_union_right _ _
    · exact Attrs.empty_le _

/-- A root makes others escape by their address only, and only if it outlives them. -/
theorem of_escapes_learned {p : Program} {g : Graph} {attrs : Attrs} {root l : LocId} {d : Int}
    (h : (learned p g attrs root l d).escapes = true) :
    d < 0 ∧ outlives p g attrs root l = true := by
  unfold learned at h
  have he : (if d ≤ 0 then attrs.inter .effects else Attrs.empty).has .escapes = false := by
    split <;> simp [Attrs.has_effects]
  rw [Attrs.escapes, Attrs.has_union, he, Bool.or_false] at h
  split at h
  · next hd =>
    refine ⟨hd, ?_⟩
    unfold learnedByAddress at h
    split at h
    · next ho => exact ho
    · split at h <;> simp [Attrs.has_ofAttr] at h
  · simp at h

/-- A root only makes others escape together with everything else. -/
theorem all_le_of_escapes_learned (p : Program) (g : Graph) (attrs : Attrs) (root l : LocId)
    (d : Int) (h : (learned p g attrs root l d).escapes = true) :
    Attrs.all ≤ learned p g attrs root l d := by
  obtain ⟨hd, ho⟩ := of_escapes_learned h
  unfold learned learnedByAddress
  rw [if_pos hd, if_pos ho]
  exact Attrs.le_union_left _ _

/-- The sinks that a root with attributes `attrs` stands for in the leaks of `l`. -/
inductive Records (p : Program) (g : Graph) (attrs : Attrs) (root l : LocId) : Sink → Prop
  | result {i : Nat} : outlives p g attrs root l = true → attrs.escapes = false →
      (g.loc root).result = some i → (g.loc root).func = (g.loc l).func →
      i < Sink.trackedResults → Records p g attrs root l (.result i)
  | heap : outlives p g attrs root l = true →
      (∀ i, (g.loc root).result = some i → (g.loc root).func = (g.loc l).func →
        i < Sink.trackedResults → attrs.escapes = true) → Records p g attrs root l .heap
  | mutator : attrs.mutates = true → Records p g attrs root l .mutator
  | callee : attrs.calls = true → Records p g attrs root l .callee

theorem Records.slot?_isSome {p : Program} {g : Graph} {attrs : Attrs} {root l : LocId} {s : Sink}
    (h : Records p g attrs root l s) : s.slot?.isSome := by
  cases h with
  | result _ _ _ _ hi => exact Sink.slot?_result hi
  | heap => rfl
  | mutator => rfl
  | callee => rfl

/-- The same sinks as a list, in the order in which they go on record. -/
def recordedSinks (p : Program) (g : Graph) (attrs : Attrs) (root l : LocId) : List Sink :=
  (if outlives p g attrs root l then [leakSink g attrs root l] else []) ++
    ((if attrs.mutates then [.mutator] else []) ++ (if attrs.calls then [.callee] else []))

theorem leakSink_eq_result {g : Graph} {attrs : Attrs} {root l : LocId} {i : Nat}
    (he : attrs.escapes = false) (hr : (g.loc root).result = some i)
    (hf : (g.loc root).func = (g.loc l).func) (hi : i < Sink.trackedResults) :
    leakSink g attrs root l = .result i := by
  unfold leakSink
  simp [hr, he, hf, hi]

theorem leakSink_eq_heap {g : Graph} {attrs : Attrs} {root l : LocId}
    (hn : ∀ i, (g.loc root).result = some i → (g.loc root).func = (g.loc l).func →
      i < Sink.trackedResults → attrs.escapes = true) : leakSink g attrs root l = .heap := by
  unfold leakSink
  cases hr : (g.loc root).result with
  | none => rfl
  | some i =>
    dsimp only
    rw [if_neg]
    intro hc
    simp only [Bool.and_eq_true, Bool.not_eq_true', decide_eq_true_eq] at hc
    rw [hn i hr hc.1.2 hc.2] at hc
    cases hc.1.1

theorem records_leakSink {p : Program} {g : Graph} {attrs : Attrs} {root l : LocId}
    (h : outlives p g attrs root l = true) :
    Records p g attrs root l (leakSink g attrs root l) := by
  by_cases hn : ∀ i, (g.loc root).result = some i → (g.loc root).func = (g.loc l).func →
      i < Sink.trackedResults → attrs.escapes = true
  · rw [leakSink_eq_heap hn]
    exact .heap h hn
  · simp only [not_forall, Bool.not_eq_true] at hn
    obtain ⟨i, hr, hf, hi, he⟩ := hn
    rw [leakSink_eq_result he hr hf hi]
    exact .result h he hr hf hi

theorem mem_recordedSinks {p : Program} {g : Graph} {attrs : Attrs} {root l : LocId} {s : Sink} :
    s ∈ recordedSinks p g attrs root l ↔ Records p g attrs root l s := by
  simp only [recordedSinks, List.mem_append, List.mem_ite_nil_right, List.mem_singleton]
  constructor
  · rintro (⟨ho, rfl⟩ | ⟨hm, rfl⟩ | ⟨hc, rfl⟩)
    · exact records_leakSink ho
    · exact .mutator hm
    · exact .callee hc
  · intro h
    cases h with
    | result ho he hr hf hi => exact .inl ⟨ho, (leakSink_eq_result he hr hf hi).symm⟩
    | heap ho hn => exact .inl ⟨ho, (leakSink_eq_heap hn).symm⟩
    | mutator hm => exact .inr (.inl ⟨hm, rfl⟩)
    | callee hc => exact .inr (.inr ⟨hc, rfl⟩)

/-- When a root gains attributes it goes on standing for the same sinks, but a result that
escapes stands for the heap. -/
theorem Records.mono {p : Program} {g : Graph} {s t : Attrs} {root l : LocId} (h : s ≤ t)
    {sink : Sink} (hr : Records p g s root l sink) :
    Records p g t root l sink ∨ Records p g t root l .heap := by
  cases hr with
  | @result i ho he hres hf hi =>
    cases ht : t.escapes with
    | true => exact .inr (.heap (outlives_mono p g h ho) fun _ _ _ _ => ht)
    | false => exact .inl (.result (outlives_mono p g h ho) ht hres hf hi)
  | heap ho hn =>
    exact .inl (.heap (outlives_mono p g h ho) fun i hi hf hlt => h .escapes (hn i hi hf hlt))
  | mutator hm => exact .inl (.mutator (h .mutates hm))
  | callee hc => exact .inl (.callee (h .calls hc))

theorem leaked_of_param {p : Program} {g : Graph} {attrs : Attrs} {root l : LocId} (d : Int)
    (leaks : Leaks) (h : (g.loc l).isParam = true) :
    leaked p g attrs root l d leaks =
      (recordedSinks p g attrs root l).foldl (fun k s => k.add s d) leaks := by
  unfold leaked recordedSinks
  rw [if_pos h]
  cases outlives p g attrs root l <;> cases attrs.mutates <;> cases attrs.calls <;> rfl

theorem leaked_of_not_param {p : Program} {g : Graph} {attrs : Attrs} {root l : LocId} (d : Int)
    (leaks : Leaks) (h : (g.loc l).isParam = false) :
    leaked p g attrs root l d leaks = leaks := by
  unfold leaked
  rw [h]
  rfl

theorem Leaks.Within.foldl_add {k : Leaks} {s : Sink} {n : Nat} (h : k.Within s n) (d : Int)
    (sinks : List Sink) : (sinks.foldl (fun k s => k.add s d) k).Within s n := by
  induction sinks generalizing k with
  | nil => exact h
  | cons t sinks ih => exact ih (h.add t d)

theorem Leaks.within_foldl_add (k : Leaks) (d : Int) (sinks : List Sink) {s : Sink}
    (hs : s ∈ sinks) (ht : s.slot?.isSome) :
    (sinks.foldl (fun k s => k.add s d) k).Within s (clampDepth d) := by
  induction sinks generalizing k with
  | nil => cases hs
  | cons t sinks ih =>
    rcases List.mem_cons.1 hs with rfl | hs
    · exact (k.within_add d ht).foldl_add d sinks
    · exact ih _ hs

theorem Leaks.get?_foldl_add_eq_some {k : Leaks} {d : Int} {sinks : List Sink} {s : Sink} {n : Nat}
    (h : (sinks.foldl (fun k s => k.add s d) k).get? s = some n) :
    k.get? s = some n ∨ s ∈ sinks ∧ n = clampDepth d := by
  induction sinks generalizing k with
  | nil => exact .inl h
  | cons t sinks ih =>
    rcases ih h with h | ⟨hs, hn⟩
    · rcases get?_add_eq_some h with h | ⟨rfl, -, hn⟩
      · exact .inl h
      · exact .inr ⟨by simp, hn⟩
    · exact .inr ⟨by simp [hs], hn⟩

theorem within_leaked_of_within (p : Program) (g : Graph) (attrs : Attrs) (root l : LocId)
    (d : Int) {leaks : Leaks} {s : Sink} {n : Nat} (h : leaks.Within s n) :
    (leaked p g attrs root l d leaks).Within s n := by
  cases hp : (g.loc l).isParam with
  | true =>
    rw [leaked_of_param d leaks hp]
    exact h.foldl_add d _
  | false => rwa [leaked_of_not_param d leaks hp]

theorem within_leaked {p : Program} {g : Graph} {attrs : Attrs} {root l : LocId} (d : Int)
    (leaks : Leaks) (hp : (g.loc l).isParam = true) {s : Sink} (hs : Records p g attrs root l s) :
    (leaked p g attrs root l d leaks).Within s (Leaks.clampDepth d) := by
  rw [leaked_of_param d leaks hp]
  exact leaks.within_foldl_add d _ (mem_recordedSinks.2 hs) hs.slot?_isSome

/-- What is on record after a visit was there before, or the root stands for it. -/
theorem get?_leaked_eq_some {p : Program} {g : Graph} {attrs : Attrs} {root l : LocId} {d : Int}
    {leaks : Leaks} {s : Sink} {n : Nat}
    (h : (leaked p g attrs root l d leaks).get? s = some n) :
    leaks.get? s = some n ∨
      Records p g attrs root l s ∧ n = Leaks.clampDepth d := by
  cases hp : (g.loc l).isParam with
  | true =>
    rw [leaked_of_param d leaks hp] at h
    exact (Leaks.get?_foldl_add_eq_some h).imp id fun h => ⟨mem_recordedSinks.1 h.1, h.2⟩
  | false =>
    rw [leaked_of_not_param d leaks hp] at h
    exact .inl h

end EscapeFlow
