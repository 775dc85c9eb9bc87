import Mathlib.Tactic.Common

/-!
# Arithmetic of 32-bit integers

The operations of a signed type of 32 bits whose overflow has no meaning: `int32` is applied
to the result of each, and there is none where it is out of range. No program is named here.
-/

namespace NTUSP.Library

/-- The ends of a 32-bit `int`. -/
def INT_MIN : Int := -2147483648

def INT_MAX : Int := 2147483647

/-- The result of an `int` operation, if it is in range. -/
def int32 (value : Int) : Option Int :=
  if INT_MIN ≤ value ∧ value ≤ INT_MAX then some value else none

variable {value result : Int}

theorem int32_of_bounds (lower : INT_MIN ≤ value) (upper : value ≤ INT_MAX) :
    int32 value = some value := if_pos ⟨lower, upper⟩

/-- An operation that does not overflow is exact. -/
theorem int32_eq (computed : int32 value = some result) : result = value := by
  unfold int32 at computed
  split at computed
  · exact (Option.some.inj computed).symm
  · cases computed

/-- What is not larger than a number in range, whatever its sign, is in range. -/
theorem int32_within (bound : Nat) (small : (bound : Int) ≤ INT_MAX)
    (lower : -(bound : Int) ≤ value) (upper : value ≤ bound) : int32 value = some value := by
  unfold INT_MAX at small
  refine int32_of_bounds ?_ ?_
  · unfold INT_MIN
    omega
  · unfold INT_MAX
    omega

theorem int32_natCast (count : Nat) {bound : Nat} (small : (bound : Int) ≤ INT_MAX)
    (below : count ≤ bound) : int32 (count : Int) = some (count : Int) :=
  int32_within bound small (by omega) (by omega)

end NTUSP.Library
