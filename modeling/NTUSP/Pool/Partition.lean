import Mathlib.Algebra.BigOperators.Intervals
import Mathlib.Tactic.Common

/-!
# Matrices and work ranges of the thread pool

`calculation` is the dot product of `main.c`; `tpool_request` transposes `b` so
that a cell of the product is `calculation` of two rows, and cuts the `n * n`
cells into `num_works` consecutive ranges, the first `remainder` of them one cell
longer. The arithmetic is exact here, also where an `int` of C overflows. `Request.Fits`
says of which requests it is the arithmetic of the program.
-/

namespace NTUSP.Pool

/-- An `int **`: row, then column. -/
abbrev Matrix := Nat → Nat → Int

/-- `calculation` of `main.c`: the loop over `res += a[i] * b[i]`. -/
def calculation (n : Nat) (a b : Nat → Int) : Int :=
  (List.range n).foldl (fun res i => res + a i * b i) 0

/-- The copy of `b` that `tpool_request` makes, `transpose_b[i][j] = b[j][i]`. -/
def transposeB (b : Matrix) : Matrix := fun i j => b j i

/-- The matrix product, cell by cell. -/
def product (n : Nat) (a b : Matrix) : Matrix :=
  fun i j => ∑ k ∈ Finset.range n, a i k * b k j

/-- The loop of `calculation` is the sum of the products. -/
theorem calculation_eq_sum (n : Nat) (a b : Nat → Int) :
    calculation n a b = ∑ i ∈ Finset.range n, a i * b i := by
  induction n with
  | zero => rfl
  | succ n ih =>
      unfold calculation at ih ⊢
      rw [List.range_succ, List.foldl_append, ih, Finset.sum_range_succ]
      rfl

/-- A row of `a` and a row of the transposed `b` give a cell of the product. -/
theorem calculation_transposeB (n : Nat) (a b : Matrix) (i j : Nat) :
    calculation n (a i) (transposeB b j) = product n a b i j :=
  calculation_eq_sum n (a i) (transposeB b j)

/-- The end of the range that starts at `start`, for item `i` of the loop. -/
def rangeEnd (workSize remainder start i : Nat) : Nat :=
  start + workSize + (if i < remainder then 1 else 0)

/-- Where the range of item `i` starts, in closed form. -/
def rangeStart (workSize remainder i : Nat) : Nat :=
  i * workSize + min i remainder

@[simp] theorem rangeStart_zero (workSize remainder : Nat) :
    rangeStart workSize remainder 0 = 0 := by
  simp [rangeStart]

/-- One turn of the loop: the end of item `i` is the start of item `i + 1`. -/
theorem rangeEnd_rangeStart (workSize remainder i : Nat) :
    rangeEnd workSize remainder (rangeStart workSize remainder i) i =
      rangeStart workSize remainder (i + 1) := by
  unfold rangeEnd rangeStart
  rw [Nat.succ_mul]
  split <;> omega

/-- Ranges never run backwards. -/
theorem rangeStart_mono {workSize remainder i j : Nat} (ordered : i ≤ j) :
    rangeStart workSize remainder i ≤ rangeStart workSize remainder j := by
  unfold rangeStart
  have scaled := Nat.mul_le_mul_right workSize ordered
  omega

/-- The last range ends at the last cell. -/
theorem rangeStart_last (total : Nat) {numWorks : Nat} (positive : 0 < numWorks) :
    rangeStart (total / numWorks) (total % numWorks) numWorks = total := by
  unfold rangeStart
  have small := Nat.mod_lt total positive
  rw [Nat.min_eq_right (Nat.le_of_lt small)]
  exact Nat.div_add_mod total numWorks

end NTUSP.Pool
