import EscapeFlow.Flow.Leaks
import Mathlib.Order.Basic

/-!
# The order of leak summaries

`l.Within s n` says that the leaks `l` have sink `s` on record at depth `n` or less.  One
summary subsumes another when it has each of its records, no deeper, or a heap record that is
no deeper; dropping what the heap record covers makes equal summaries out of those that
subsume each other.

    l.Subsumes k → k.Subsumes l → l.optimize = k.optimize          (optimize_eq_of_subsumes)
-/

namespace EscapeFlow

namespace Sink

theorem eq_ofSlot {s : Sink} {i : Fin 8} (h : s.slot? = some i) : s = ofSlot i := by
  cases s with
  | heap => cases h; rfl
  | mutator => cases h; rfl
  | callee => cases h; rfl
  | result j =>
    simp only [slot?] at h
    split at h
    · next hj =>
      cases h
      obtain rfl | rfl | rfl | rfl | rfl : j = 0 ∨ j = 1 ∨ j = 2 ∨ j = 3 ∨ j = 4 := by
        unfold trackedResults at hj
        omega
      all_goals rfl
    · cases h

theorem slot?_ofSlot (i : Fin 8) : (ofSlot i).slot? = some i := by
  revert i
  decide

theorem slot?_result {i : Nat} (hi : i < trackedResults) : (result i).slot?.isSome := by
  simp [slot?, hi]

end Sink

namespace Leaks

/-- The depth that goes on record for a number of dereferences. -/
def clampDepth (d : Int) : Nat := min d.toNat 254

theorem clampDepth_mono {d d' : Int} (h : d ≤ d') : clampDepth d ≤ clampDepth d' := by
  unfold clampDepth
  omega

theorem clampDepth_le (d : Int) : (clampDepth d : Int) ≤ max d 0 := by
  unfold clampDepth
  omega

/-- Sink `s` is on record at depth `n` or less. -/
def Within (l : Leaks) (s : Sink) (n : Nat) : Prop := ∃ m, m ≤ n ∧ l.get? s = some m

theorem Within.mono {l : Leaks} {s : Sink} {n n' : Nat} (h : l.Within s n) (hn : n ≤ n') :
    l.Within s n' := by
  obtain ⟨m, hm, he⟩ := h
  exact ⟨m, by omega, he⟩

/-! ## Reading slots -/

theorem get?_of_slot (l : Leaks) {s : Sink} {i : Fin 8} (h : s.slot? = some i) :
    l.get? s = (l.slots.get i).map (·.val) := by
  unfold get?
  rw [h]
  show ((l.slots.get i) >>= fun d => pure d.val) = (l.slots.get i).map (·.val)
  cases l.slots.get i <;> rfl

theorem get?_of_untracked (l : Leaks) {s : Sink} (h : s.slot? = none) : l.get? s = none := by
  unfold get?
  rw [h]
  rfl

theorem get?_ofSlot (l : Leaks) (i : Fin 8) : l.get? (.ofSlot i) = (l.slots.get i).map (·.val) :=
  l.get?_of_slot (Sink.slot?_ofSlot i)

theorem get?_empty (s : Sink) : empty.get? s = none := by
  cases h : s.slot? with
  | none => exact empty.get?_of_untracked h
  | some i =>
    rw [empty.get?_of_slot h, Option.map_eq_none_iff]
    exact Vector.getElem_replicate i.isLt

/-- Leaks are what they have on record. -/
theorem ext_get? {l k : Leaks} (h : ∀ s, l.get? s = k.get? s) : l = k := by
  obtain ⟨l⟩ := l
  obtain ⟨k⟩ := k
  congr 1
  apply Vector.ext
  intro i hi
  have := h (.ofSlot ⟨i, hi⟩)
  rw [get?_ofSlot, get?_ofSlot] at this
  exact Option.map_injective (fun _ _ => Fin.ext) this

/-! ## Adding a record -/

theorem slots_add (l : Leaks) (s : Sink) (d : Int) (i : Fin 8) :
    (l.add s d).slots.get i =
      if s.slot? = some i then some (lesser (l.slots.get i) (Depth.ofInt d))
      else l.slots.get i := by
  unfold add
  cases h : s.slot? with
  | none => simp
  | some j =>
    by_cases hj : j = i
    · subst hj
      rw [if_pos rfl]
      exact Vector.getElem_set_self j.isLt
    · have hv : j.val ≠ i.val := fun e => hj (Fin.ext e)
      rw [if_neg (by simpa using hj)]
      exact Vector.getElem_set_ne j.isLt i.isLt hv

theorem val_lesser (old : Option Depth) (d : Int) :
    (lesser old (Depth.ofInt d)).val =
      match old with
      | none => clampDepth d
      | some e => min e.val (clampDepth d) := by
  cases old with
  | none => rfl
  | some e =>
    show (if Depth.ofInt d < e then Depth.ofInt d else e).val = min e.val (clampDepth d)
    split
    · next h =>
      have : clampDepth d < e.val := h
      show clampDepth d = _
      omega
    · next h =>
      have : ¬ clampDepth d < e.val := h
      omega

theorem get?_add_of_ne (l : Leaks) {s t : Sink} (d : Int) (h : t ≠ s) :
    (l.add s d).get? t = l.get? t := by
  cases ht : t.slot? with
  | none => rw [get?_of_untracked _ ht, get?_of_untracked _ ht]
  | some i =>
    rw [get?_of_slot _ ht, get?_of_slot _ ht, slots_add, if_neg]
    intro hs
    exact h ((Sink.eq_ofSlot ht).trans (Sink.eq_ofSlot hs).symm)

/-- A record is there after it was added. -/
theorem within_add (l : Leaks) {s : Sink} (d : Int) (h : s.slot?.isSome) :
    (l.add s d).Within s (clampDepth d) := by
  obtain ⟨i, hi⟩ := Option.isSome_iff_exists.1 h
  refine ⟨(lesser (l.slots.get i) (Depth.ofInt d)).val, ?_, ?_⟩
  · rw [val_lesser]
    cases l.slots.get i with
    | none => exact Nat.le_refl _
    | some e => exact Nat.min_le_right _ _
  · rw [get?_of_slot _ hi, slots_add, if_pos hi]
    rfl

/-- Adding a record takes none away. -/
theorem Within.add {l : Leaks} {s : Sink} {n : Nat} (h : l.Within s n) (t : Sink) (d : Int) :
    (l.add t d).Within s n := by
  obtain ⟨m, hm, he⟩ := h
  by_cases hst : s = t
  · subst hst
    cases hs : s.slot? with
    | none => rw [l.get?_of_untracked hs] at he; cases he
    | some i =>
      rw [l.get?_of_slot hs] at he
      obtain ⟨e, hi, rfl⟩ := Option.map_eq_some_iff.1 he
      refine ⟨(lesser (l.slots.get i) (Depth.ofInt d)).val, ?_, ?_⟩
      · rw [val_lesser, hi]
        dsimp only
        omega
      · rw [get?_of_slot _ hs, slots_add, if_pos hs]
        rfl
  · exact ⟨m, hm, by rw [l.get?_add_of_ne d hst]; exact he⟩

/-- What is on record after adding was there before, or is what was added. -/
theorem get?_add_eq_some {l : Leaks} {s t : Sink} {d : Int} {n : Nat}
    (h : (l.add s d).get? t = some n) :
    l.get? t = some n ∨ t = s ∧ s.slot?.isSome ∧ n = clampDepth d := by
  by_cases hts : t = s
  · subst hts
    cases ht : t.slot? with
    | none => rw [get?_of_untracked _ ht] at h; cases h
    | some i =>
      rw [get?_of_slot _ ht, slots_add, if_pos ht] at h
      simp only [Option.map_some, Option.some.injEq] at h
      rw [val_lesser] at h
      rw [l.get?_of_slot ht]
      cases hi : l.slots.get i with
      | none =>
        rw [hi] at h
        exact .inr ⟨rfl, rfl, h.symm⟩
      | some e =>
        rw [hi] at h
        dsimp only at h
        rcases Nat.le_total e.val (clampDepth d) with he | he
        · left
          rw [Nat.min_eq_left he] at h
          simp [h]
        · right
          rw [Nat.min_eq_right he] at h
          exact ⟨rfl, rfl, h.symm⟩
  · left
    rwa [l.get?_add_of_ne d hts] at h

/-! ## Optimizing -/

theorem optimize_of_none {l : Leaks} (h : l.get? .heap = none) : l.optimize = l := by
  rw [l.get?_of_slot (i := 0) rfl, Option.map_eq_none_iff] at h
  unfold optimize
  rw [show l.slots[0] = none from h]

theorem get?_optimize_heap (l : Leaks) : l.optimize.get? .heap = l.get? .heap := by
  cases h : l.get? .heap with
  | none => rw [optimize_of_none h, h]
  | some n =>
    rw [l.get?_of_slot (i := 0) rfl] at h
    obtain ⟨e, he, rfl⟩ := Option.map_eq_some_iff.1 h
    rw [get?_of_slot _ (i := 0) rfl]
    unfold optimize
    rw [show l.slots[0] = some e from he]
    exact congrArg (Option.map Fin.val) (Vector.getElem_set_self (by decide))

/-- Below a heap record of depth `n` only what is less deep is kept. -/
theorem get?_optimize_of_heap {l : Leaks} {n : Nat} (h : l.get? .heap = some n) {s : Sink}
    (hs : s ≠ .heap) : l.optimize.get? s = (l.get? s).filter (· < n) := by
  rw [l.get?_of_slot (i := 0) rfl] at h
  obtain ⟨e, he, rfl⟩ := Option.map_eq_some_iff.1 h
  cases hi : s.slot? with
  | none => rw [get?_of_untracked _ hi, get?_of_untracked _ hi]; rfl
  | some i =>
    have h0 : (0 : Nat) ≠ i.val := by
      intro h0
      have : i = 0 := Fin.ext h0.symm
      subst this
      exact hs (Sink.eq_ofSlot hi)
    have hk : l.optimize.slots.get i = keepBelow e (l.slots.get i) := by
      unfold optimize
      rw [show l.slots[0] = some e from he]
      show (((l.slots.map (keepBelow e)).set 0 (some e)) : Vector _ 8)[i.val] = _
      rw [Vector.getElem_set_ne _ _ h0]
      exact Vector.getElem_map _ i.isLt
    rw [get?_of_slot _ hi, get?_of_slot _ hi, hk]
    cases l.slots.get i with
    | none => rfl
    | some d =>
      show (if decide (d < e) = true then some d else none).map (·.val) =
        if decide (d.val < e.val) = true then some d.val else none
      by_cases hd : d.val < e.val
      · have hd' : d < e := hd
        rw [decide_eq_true hd, decide_eq_true hd']
        rfl
      · have hd' : ¬ d < e := hd
        rw [decide_eq_false hd, decide_eq_false hd']
        rfl

/-- Whatever `k` has on record, `l` has too, or has the heap on record no deeper. -/
def Subsumes (l k : Leaks) : Prop :=
  ∀ s n, k.get? s = some n → l.Within s n ∨ l.Within .heap n

theorem Subsumes.within {l k : Leaks} (h : l.Subsumes k) {s : Sink} {n : Nat}
    (hk : k.Within s n) : l.Within s n ∨ l.Within .heap n := by
  obtain ⟨m, hm, he⟩ := hk
  exact (h s m he).imp (·.mono hm) (·.mono hm)

theorem Subsumes.within_heap {l k : Leaks} (h : l.Subsumes k) {n : Nat}
    (hk : k.Within .heap n) : l.Within .heap n := (h.within hk).elim id id

/-- Optimizing loses nothing that the heap record does not cover. -/
theorem optimize_subsumes (l : Leaks) : l.optimize.Subsumes l := by
  intro s n hn
  cases h : l.get? .heap with
  | none => exact .inl ⟨n, Nat.le_refl n, by rw [optimize_of_none h]; exact hn⟩
  | some m =>
    by_cases hs : s = .heap
    · subst hs
      exact .inl ⟨n, Nat.le_refl n, by rw [get?_optimize_heap]; exact hn⟩
    · by_cases hlt : n < m
      · refine .inl ⟨n, Nat.le_refl n, ?_⟩
        rw [get?_optimize_of_heap h hs, hn]
        simp [hlt]
      · exact .inr ⟨m, by omega, by rw [get?_optimize_heap]; exact h⟩

theorem Subsumes.heap_of_heap {l k : Leaks} (h : l.Subsumes k) (h' : k.Subsumes l) {n : Nat}
    (hn : l.get? .heap = some n) : k.get? .heap = some n := by
  obtain ⟨m, hm, he⟩ := h'.within_heap ⟨n, Nat.le_refl n, hn⟩
  obtain ⟨m', hm', he'⟩ := h.within_heap ⟨m, Nat.le_refl m, he⟩
  rw [hn] at he'
  cases he'
  rwa [show n = m by omega]

/-- Of two summaries that subsume each other, what is kept of one is kept of the other. -/
theorem Subsumes.optimize_of_optimize {l k : Leaks} (h : l.Subsumes k) (h' : k.Subsumes l)
    {s : Sink} {n : Nat} (hn : l.optimize.get? s = some n) : k.optimize.get? s = some n := by
  by_cases hs : s = .heap
  · subst hs
    rw [get?_optimize_heap] at hn ⊢
    exact h.heap_of_heap h' hn
  · cases hh : l.get? .heap with
    | none =>
      have hk : k.get? .heap = none := by
        apply Option.eq_none_iff_forall_ne_some.2
        intro m hm
        rw [h'.heap_of_heap h hm] at hh
        cases hh
      rw [optimize_of_none hh] at hn
      rw [optimize_of_none hk]
      -- no heap record on either side, so each record is matched by one for the same sink
      rcases h' s n hn with ⟨m, hm, he⟩ | ⟨m, _, he⟩
      · rcases h s m he with ⟨m', hm', he'⟩ | ⟨m', _, he'⟩
        · rw [hn] at he'
          cases he'
          rwa [show n = m by omega]
        · rw [hh] at he'
          cases he'
      · rw [hk] at he
        cases he
    | some b =>
      have hk := h.heap_of_heap h' hh
      rw [get?_optimize_of_heap hh hs, Option.filter_eq_some_iff] at hn
      obtain ⟨hn, hb⟩ := hn
      have hb : n < b := of_decide_eq_true hb
      rw [get?_optimize_of_heap hk hs, Option.filter_eq_some_iff]
      refine ⟨?_, decide_eq_true hb⟩
      rcases h' s n hn with ⟨m, hm, he⟩ | ⟨m, hm, he⟩
      · rcases h s m he with ⟨m', hm', he'⟩ | ⟨m', hm', he'⟩
        · rw [hn] at he'
          cases he'
          rwa [show n = m by omega]
        · rw [hh] at he'
          cases he'
          omega
      · rw [hk] at he
        cases he
        omega

/-- Summaries that subsume each other are the same once optimized. -/
theorem optimize_eq_of_subsumes {l k : Leaks} (h : l.Subsumes k) (h' : k.Subsumes l) :
    l.optimize = k.optimize := by
  apply ext_get?
  intro s
  apply Option.ext
  intro n
  exact ⟨h.optimize_of_optimize h', h'.optimize_of_optimize h⟩

end Leaks

end EscapeFlow
