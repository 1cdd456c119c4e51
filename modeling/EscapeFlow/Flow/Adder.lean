/-!
# Adding dereferences

A walk adds the weights of edges to numbers of dereferences that it has brought up to zero.
`Adder.int32` adds them as integers of 32 bits, where a sum above the greatest of them comes out
below zero, and `Adder.exact` as integers of any size.  The two agree on sums that are not above
the greatest (`Adder.int32_add_eq`).  All that a walk needs to end is a bound below the sums, and
all it needs to miss nothing is that none of them is above the true one.
-/

namespace EscapeFlow

/-- The greatest integer of 32 bits. -/
def maxInt32 : Int := 2147483647

/-- A way to add a weight to a number that is not below zero. -/
structure Adder where
  add : Int → Int → Int
  floor : Int
  /-- A sum is below its weight only down to the floor. -/
  le_add : ∀ d w, 0 ≤ d → min floor w ≤ add d w
  /-- No sum is above the true one. -/
  add_le : ∀ d w, 0 ≤ d → add d w ≤ d + w

namespace Adder

def exact : Adder where
  add d w := d + w
  floor := 0
  le_add d w hd := by omega
  add_le d w _ := Int.le_refl _

/-- The sum of a number from zero up and a weight, both of 32 bits, passes the greatest integer of
32 bits at most once. -/
def int32 : Adder where
  add d w := if d + w ≤ maxInt32 then d + w else d + w - 4294967296
  floor := -2147483648
  le_add d w hd := by
    unfold maxInt32
    split <;> omega
  add_le d w _ := by
    split <;> omega

@[simp]
theorem exact_add (d w : Int) : exact.add d w = d + w := rfl

theorem int32_add_eq {d w : Int} (h : d + w ≤ maxInt32) : int32.add d w = d + w := if_pos h

/-- It is the addition of 32-bit integers. -/
theorem int32_add_toInt (d w : Int32) (hd : 0 ≤ d.toInt) :
    int32.add d.toInt w.toInt = (d + w).toInt := by
  have hd' := d.toInt_lt
  have hw := w.le_toInt
  have hw' := w.toInt_lt
  rw [Int32.toInt_add]
  unfold int32 maxInt32
  dsimp only
  split
  · rw [Int.bmod_eq_of_le] <;> omega
  · rw [Int.bmod_def]
    omega

end Adder

end EscapeFlow
