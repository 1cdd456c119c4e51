/-!
# Totals

The sum of a count over a list.
-/

namespace EscapeFlow

variable {α : Type}

def total (f : α → Nat) : List α → Nat
  | [] => 0
  | a :: as => f a + total f as

/-- Exchanging one element changes the total by the difference of the two counts. -/
theorem total_set (f : α → Nat) (xs : List α) (i : Nat) (h : i < xs.length) (a : α) :
    total f (xs.set i a) + f xs[i] = total f xs + f a := by
  induction xs generalizing i with
  | nil => simp at h
  | cons x xs ih =>
    cases i with
    | zero =>
      simp only [List.set_cons_zero, total, List.getElem_cons_zero]
      omega
    | succ i =>
      have := ih i (by simpa using h)
      simp only [List.set_cons_succ, total, List.getElem_cons_succ]
      omega

theorem total_le_mul {f : α → Nat} {c : Nat} (hf : ∀ a, f a ≤ c) (xs : List α) :
    total f xs ≤ c * xs.length := by
  induction xs with
  | nil => simp [total]
  | cons x xs ih =>
    have := hf x
    simp only [total, List.length_cons, Nat.mul_succ]
    omega

end EscapeFlow
