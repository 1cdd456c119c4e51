import EscapeFlow.Analysis
import Mathlib.Data.List.Perm.Basic

/-!
# Jobs that can fail

`List.mapM` does one job after the other and stops at the first that fails.  `Traced.inParallel`
goes by the times at which the jobs are done instead.  The times do not show as long as no job
fails: the results are the same, in the order of the list,

    (inParallel finish job xs).result = .ok ys ↔ (xs.mapM job).result = .ok ys
                                                                        (result_inParallel_eq_ok)

and if some job fails, one that does decides how it ends (`exists_of_result_inParallel_eq_error`).
-/

namespace EscapeFlow

/-! ## Computations that fail -/

section

variable {ε α β : Type}

theorem bind_eq_ok {x : Except ε α} {f : α → Except ε β} {b : β} :
    x >>= f = .ok b ↔ ∃ a, x = .ok a ∧ f a = .ok b := by
  cases x with
  | ok a => exact ⟨fun h => ⟨a, rfl, h⟩, fun ⟨_, ha, h⟩ => Except.ok.inj ha ▸ h⟩
  | error e => exact ⟨fun h => (nomatch h), fun ⟨_, ha, _⟩ => (nomatch ha)⟩

theorem bind_eq_error {x : Except ε α} {f : α → Except ε β} {e : ε} :
    x >>= f = .error e ↔ x = .error e ∨ ∃ a, x = .ok a ∧ f a = .error e := by
  cases x with
  | ok a =>
    constructor
    · exact fun h => .inr ⟨a, rfl, h⟩
    · rintro (h | ⟨_, ha, h⟩)
      · cases h
      · cases ha
        exact h
  | error e' =>
    constructor
    · exact fun h => .inl (congrArg Except.error (Except.error.inj h))
    · rintro (h | ⟨_, ha, -⟩)
      · cases h
        rfl
      · cases ha

theorem mapM_eq_ok {f : α → Except ε β} {xs : List α} {ys : List β} :
    xs.mapM f = .ok ys ↔ List.Forall₂ (fun x y => f x = .ok y) xs ys := by
  induction xs generalizing ys with
  | nil =>
    rw [List.mapM_nil, List.forall₂_nil_left_iff]
    exact ⟨fun h => (Except.ok.inj h).symm, fun h => congrArg Except.ok h.symm⟩
  | cons x xs ih =>
    rw [List.mapM_cons, List.forall₂_cons_left_iff, bind_eq_ok]
    constructor
    · rintro ⟨y, hy, h⟩
      obtain ⟨zs, hzs, h⟩ := bind_eq_ok.1 h
      exact ⟨y, zs, hy, ih.1 hzs, (Except.ok.inj h).symm⟩
    · rintro ⟨y, zs, hy, hzs, rfl⟩
      exact ⟨y, hy, bind_eq_ok.2 ⟨zs, ih.2 hzs, rfl⟩⟩

theorem ok_of_mapM_eq_ok {f : α → Except ε β} {xs : List α} {ys : List β}
    (h : xs.mapM f = .ok ys) {x : α} (hx : x ∈ xs) : ∃ y, f x = .ok y := by
  rw [mapM_eq_ok] at h
  induction h with
  | nil => cases hx
  | cons hxy _ ih =>
    rcases List.mem_cons.1 hx with rfl | hx
    · exact ⟨_, hxy⟩
    · exact ih hx

theorem mapM_bind_ok {γ : Type} (f : α → Except ε β) (g : β → γ) (xs : List α) :
    (xs.mapM fun x => f x >>= fun y => .ok (g y)) = xs.mapM f >>= fun ys => .ok (ys.map g) := by
  induction xs with
  | nil => rfl
  | cons x xs ih =>
    rw [List.mapM_cons, List.mapM_cons, ih]
    cases f x with
    | error e => rfl
    | ok y => cases xs.mapM f <;> rfl

/-- A failure is that of one of the elements. -/
theorem exists_of_mapM_eq_error {f : α → Except ε β} {xs : List α} {e : ε}
    (h : xs.mapM f = .error e) : ∃ x ∈ xs, f x = .error e := by
  induction xs with
  | nil => cases h
  | cons x xs ih =>
    rw [List.mapM_cons] at h
    rcases bind_eq_error.1 h with hx | ⟨y, -, h⟩
    · exact ⟨x, List.mem_cons_self, hx⟩
    · rcases bind_eq_error.1 h with hxs | ⟨ys, -, h⟩
      · obtain ⟨x', hx', hfx'⟩ := ih hxs
        exact ⟨x', List.mem_cons_of_mem _ hx', hfx'⟩
      · cases h

end

theorem mapM_congr {m : Type → Type} [Monad m] {α β : Type} {f g : α → m β} {xs : List α}
    (h : ∀ x ∈ xs, f x = g x) : xs.mapM f = xs.mapM g := by
  have hloop : ∀ (xs : List α) (acc : List β), (∀ x ∈ xs, f x = g x) →
      List.mapM.loop f xs acc = List.mapM.loop g xs acc := by
    intro xs
    induction xs with
    | nil => exact fun acc _ => rfl
    | cons x xs ih =>
      intro acc h
      rw [List.mapM.loop, List.mapM.loop, h x List.mem_cons_self]
      exact congrArg (g x >>= ·)
        (funext fun y => ih (y :: acc) fun z hz => h z (List.mem_cons_of_mem x hz))
  exact hloop xs [] h

namespace Traced

variable {α β : Type}

theorem result_mapM (f : α → Traced β) (xs : List α) :
    (xs.mapM f).result = xs.mapM fun x => (f x).result := by
  have hloop : ∀ (xs : List α) (acc : List β), (List.mapM.loop f xs acc).result =
      List.mapM.loop (fun x => (f x).result) xs acc := by
    intro xs
    induction xs with
    | nil => exact fun acc => rfl
    | cons x xs ih =>
      intro acc
      rw [List.mapM.loop, List.mapM.loop, result_bind]
      exact congrArg ((f x).result >>= ·) (funext fun y => ih (y :: acc))
  exact hloop xs []

theorem result_foldlM (f : β → α → Traced β) (b : β) (xs : List α) :
    (xs.foldlM f b).result = xs.foldlM (fun b x => (f b x).result) b := by
  induction xs generalizing b with
  | nil => rfl
  | cons x xs ih =>
    rw [List.foldlM_cons, List.foldlM_cons, result_bind]
    exact congrArg ((f b x).result >>= ·) (funext fun b' => ih b')

theorem bind_congr {x : Traced α} {f g : α → Traced β}
    (h : ∀ a, x.result = .ok a → f a = g a) : x >>= f = x >>= g := by
  show bind x f = bind x g
  unfold bind
  split
  next a ha => rw [h a ha]
  next => rfl

/-- Two folds are the same if their steps are the same wherever the first one gets. -/
theorem foldlM_congr {f g : β → α → Traced β} {xs : List α} {b : β}
    (h : ∀ n b' x, ((xs.take n).foldlM f b).result = .ok b' → xs[n]? = some x → f b' x = g b' x) :
    xs.foldlM f b = xs.foldlM g b := by
  induction xs generalizing b with
  | nil => rfl
  | cons x xs ih =>
    rw [List.foldlM_cons, List.foldlM_cons, ← h 0 b x rfl rfl]
    refine bind_congr fun b' hb' => ih fun n b'' y hn hy => h (n + 1) b'' y ?_ hy
    rw [List.take_succ_cons, List.foldlM_cons, result_bind, hb']
    exact hn

end Traced

/-! ## Jobs that are shared out -/

theorem byFinish_perm {α : Type} (finish : Nat → Nat) (xs : List α) :
    (byFinish finish xs).Perm xs.zipIdx :=
  List.mergeSort_perm _ _

theorem fst_mem_of_mem_byFinish {α : Type} {finish : Nat → Nat} {xs : List α} {x : α × Nat}
    (hx : x ∈ byFinish finish xs) : x.1 ∈ xs := by
  rw [← List.zipIdx_map_fst 0 xs]
  exact List.mem_map_of_mem ((byFinish_perm finish xs).mem_iff.1 hx)

section Sorted

variable {α β : Type} {R : α → β → Prop}

theorem forall₂_zipIdx {xs : List α} {ys : List β} (h : List.Forall₂ R xs ys) (n : Nat) :
    List.Forall₂ (fun x y => R x.1 y.2 ∧ y.1 = x.2) (xs.zipIdx n)
      ((ys.zipIdx n).map Prod.swap) := by
  induction h generalizing n with
  | nil => exact .nil
  | cons hxy _ ih => exact .cons ⟨hxy, rfl⟩ (ih (n + 1))

/-- Sorting by position undoes whatever has happened to the order. -/
theorem map_snd_mergeSort {done : List (Nat × β)} {ys : List β}
    (h : done.Perm (ys.zipIdx.map Prod.swap)) :
    (done.mergeSort fun x y => x.1 ≤ y.1).map (·.2) = ys := by
  have hpos : List.Pairwise (· < ·) (ys.zipIdx.map Prod.snd) := by
    rw [List.zipIdx_map_snd]
    exact List.pairwise_lt_range'
  have hsort : List.Pairwise (fun x y : Nat × β => x.1 ≤ y.1) (ys.zipIdx.map Prod.swap) :=
    List.pairwise_map.2 ((List.pairwise_map.1 hpos).imp Nat.le_of_lt)
  have hsorted : (done.mergeSort fun x y => x.1 ≤ y.1) = ys.zipIdx.map Prod.swap := by
    refine List.Perm.eq_of_pairwise ?_ ?_ hsort ((List.mergeSort_perm _ _).trans h)
    · intro x y hx hy hxy hyx
      have hx := h.mem_iff.1 ((List.mergeSort_perm _ _).mem_iff.1 hx)
      obtain ⟨⟨v, i⟩, hv, rfl⟩ := List.mem_map.1 hx
      obtain ⟨⟨w, j⟩, hw, rfl⟩ := List.mem_map.1 hy
      obtain rfl : i = j := Nat.le_antisymm hxy hyx
      rw [List.mem_zipIdx_iff_getElem?] at hv hw
      rw [hv] at hw
      cases hw
      rfl
    · refine (List.pairwise_mergeSort ?_ ?_ done).imp of_decide_eq_true
      · intro x y z hxy hyz
        simp only [decide_eq_true_eq] at hxy hyz ⊢
        exact Nat.le_trans hxy hyz
      · intro x y
        simp only [Bool.or_eq_true, decide_eq_true_eq]
        exact Nat.le_total _ _
  rw [hsorted, List.map_map]
  exact List.zipIdx_map_fst 0 ys

end Sorted

namespace Traced

variable {α β : Type} {finish : Nat → Nat} {job : α → Traced β} {xs : List α}

theorem result_inParallel (finish : Nat → Nat) (job : α → Traced β) (xs : List α) :
    (inParallel finish job xs).result =
      ((byFinish finish xs).mapM fun x => (job x.1).result >>= fun y => .ok (x.2, y)) >>=
        fun done => .ok ((done.mergeSort fun x y => x.1 ≤ y.1).map (·.2)) := by
  unfold inParallel
  rw [result_bind, result_mapM]
  simp only [result_bind]
  rfl

theorem result_inParallel_of_mapM {ys : List β} (h : (xs.mapM job).result = .ok ys) :
    (inParallel finish job xs).result = .ok ys := by
  rw [result_mapM, mapM_eq_ok] at h
  obtain ⟨done, hdone, hperm⟩ :=
    List.perm_comp_forall₂ (byFinish_perm finish xs) (forall₂_zipIdx h 0)
  rw [result_inParallel, bind_eq_ok]
  refine ⟨done, mapM_eq_ok.2 (hdone.imp ?_), congrArg Except.ok (map_snd_mergeSort hperm)⟩
  rintro x y ⟨hjob, hpos⟩
  rw [hjob, ← hpos]
  rfl

/-- Shared out, the jobs succeed with the results that they have in turn. -/
theorem result_inParallel_eq_ok {ys : List β} :
    (inParallel finish job xs).result = .ok ys ↔ (xs.mapM job).result = .ok ys := by
  refine ⟨fun h => ?_, result_inParallel_of_mapM⟩
  cases hturn : (xs.mapM job).result with
  | ok ys' =>
    rw [result_inParallel_of_mapM hturn] at h
    exact h
  | error e =>
    -- a job that fails in turn has failed
    rw [result_mapM] at hturn
    obtain ⟨x, hx, hjob⟩ := exists_of_mapM_eq_error hturn
    obtain ⟨i, hi⟩ := List.mem_iff_getElem?.1 hx
    have hmem : (x, i) ∈ byFinish finish xs :=
      (byFinish_perm finish xs).mem_iff.2 (List.mem_zipIdx_iff_getElem?.2 hi)
    rw [result_inParallel, bind_eq_ok] at h
    obtain ⟨done, hdone, -⟩ := h
    obtain ⟨d, hd⟩ := ok_of_mapM_eq_ok hdone hmem
    rw [hjob] at hd
    cases hd

theorem inParallel_congr {job' : α → Traced β} (h : ∀ x ∈ xs, job x = job' x) :
    inParallel finish job xs = inParallel finish job' xs := by
  unfold inParallel
  refine congrArg (· >>= _) (mapM_congr fun x hx => ?_)
  rw [h x.1 (fst_mem_of_mem_byFinish hx)]

/-- A failure is that of one of the jobs. -/
theorem exists_of_result_inParallel_eq_error {e : Error}
    (h : (inParallel finish job xs).result = .error e) : ∃ x ∈ xs, (job x).result = .error e := by
  rw [result_inParallel] at h
  rcases bind_eq_error.1 h with h | ⟨_, -, h⟩
  · obtain ⟨x, hx, hjob⟩ := exists_of_mapM_eq_error h
    rcases bind_eq_error.1 hjob with hjob | ⟨_, -, hjob⟩
    · exact ⟨x.1, fst_mem_of_mem_byFinish hx, hjob⟩
    · cases hjob
  · cases h

end Traced

end EscapeFlow
