import NTUSP.Pool.Product
import Mathlib.Data.List.Chain

/-!
# The ranges of a request

The arithmetic by which `tpool_request` cuts the cells, with the `int`s of C. The loop carries
`start` along, and the closed form `rangeStart` says where it stands before every turn, so
that no sum leaves the `int`s and the ranges are a partition of the cells, also when there
are more works than cells. `Fits` are the requests with as many cells as an `int` counts and
with the entries that `main` accepts: for them the exact arithmetic of the pool is that of C.
-/

namespace NTUSP.Pool

open NTUSP.Library

/-- The turns of the loop in `tpool_request` from `i` on, with `int` arithmetic: the `start`
and `end` of the works; `none` when it overflows. -/
def rangesFrom (workSize remainder i start : Int) : Nat → Option (List (Int × Int))
  | 0 => some []
  | turns + 1 => do
      let sized ← int32 (start + workSize)
      let end_ ← int32 (sized + if i < remainder then 1 else 0)
      let next ← int32 (i + 1)
      let rest ← rangesFrom workSize remainder next end_ turns
      return (start, end_) :: rest

/-- The `start` and `end` of the works `tpool_request` makes for `n` rows. -/
def requestRanges (n numWorks : Int) : Option (List (Int × Int)) := do
  let total ← int32 (n * n)
  let workSize ← int32 (total.tdiv numWorks)
  let remainder ← int32 (total.tmod numWorks)
  rangesFrom workSize remainder 0 0 numWorks.toNat

/-- Range `k` of the list holds a cell. -/
def HoldsCell (ranges : List (Int × Int)) (cell : Int) (k : Nat) : Prop :=
  ∃ range, ranges[k]? = some range ∧ range.1 ≤ cell ∧ cell < range.2

/-- The ranges cut the first `total` cells into consecutive parts of almost equal length. -/
structure Partitions (total numWorks : Nat) (ranges : List (Int × Int)) : Prop where
  count : ranges.length = numWorks
  first : ranges.head?.map Prod.fst = some 0
  last : ranges.getLast?.map Prod.snd = some (total : Int)
  consecutive : ranges.IsChain fun range next => range.2 = next.1
  forwards : ∀ range ∈ ranges, range.1 ≤ range.2
  covered : ∀ cell : Int, 0 ≤ cell → cell < total → ∃! k, HoldsCell ranges cell k
  balanced : ∀ range ∈ ranges, ∀ other ∈ ranges, range.2 - range.1 ≤ other.2 - other.1 + 1

variable {workSize remainder n numWorks k : Nat}

/-- Range `k` in closed form. -/
def closedRange (workSize remainder k : Nat) : Int × Int :=
  ((rangeStart workSize remainder k : Int), (rangeStart workSize remainder (k + 1) : Int))

/-- A range has `workSize` cells, and one more among the first `remainder`. -/
theorem rangeStart_succ (workSize remainder k : Nat) :
    rangeStart workSize remainder (k + 1) =
      rangeStart workSize remainder k + workSize + if k < remainder then 1 else 0 :=
  (rangeEnd_rangeStart workSize remainder k).symm

/-- The loop computes the closed form, and nothing on the way overflows. -/
theorem rangesFrom_eq {i turns : Nat} (counter : ((i + turns : Nat) : Int) ≤ INT_MAX)
    (inside : (rangeStart workSize remainder (i + turns) : Int) ≤ INT_MAX) :
    rangesFrom workSize remainder i (rangeStart workSize remainder i) turns =
      some ((List.range' i turns).map (closedRange workSize remainder)) := by
  induction turns generalizing i with
  | zero => rfl
  | succ turns ih =>
    have next := rangeStart_succ workSize remainder i
    have mono : rangeStart workSize remainder (i + 1) ≤
        rangeStart workSize remainder (i + (turns + 1)) := rangeStart_mono (by omega)
    have sized : int32 ((rangeStart workSize remainder i : Int) + workSize) =
        some ((rangeStart workSize remainder i : Int) + workSize) :=
      int32_within _ inside (by omega) (by omega)
    have ended : int32 ((rangeStart workSize remainder i : Int) + workSize +
        if (i : Int) < remainder then 1 else 0) =
          some (rangeStart workSize remainder (i + 1) : Int) := by
      have value : (rangeStart workSize remainder i : Int) + workSize +
          (if (i : Int) < remainder then 1 else 0) = rangeStart workSize remainder (i + 1) := by
        rw [next]
        split <;> split <;> omega
      rw [value]
      exact int32_natCast _ inside mono
    have later : i + 1 ≤ i + (turns + 1) := Nat.add_le_add_left (Nat.le_add_left 1 turns) i
    have counted : int32 ((i : Int) + 1) = some ((i + 1 : Nat) : Int) :=
      int32_natCast (i + 1) counter later
    have same : i + 1 + turns = i + (turns + 1) := by omega
    have rest := ih (i := i + 1) (same ▸ counter) (same ▸ inside)
    simp only [rangesFrom, sized, ended, counted, rest, Option.bind_eq_bind, Option.bind_some]
    rfl

/-- The ranges of a request are those of the closed form. -/
theorem requestRanges_eq (positive : 0 < numWorks) (fits : (n * n : Nat) ≤ INT_MAX)
    (works : (numWorks : Int) ≤ INT_MAX) :
    requestRanges n numWorks =
      some ((List.range numWorks).map (closedRange (n * n / numWorks) (n * n % numWorks))) := by
  have total : int32 ((n : Int) * n) = some ((n * n : Nat) : Int) := by
    rw [← Int.natCast_mul]
    exact int32_natCast _ fits (Nat.le_refl _)
  have size : int32 (((n * n : Nat) : Int).tdiv numWorks) =
      some ((n * n / numWorks : Nat) : Int) := by
    rw [← Int.ofNat_tdiv]
    exact int32_natCast _ fits (Nat.div_le_self ..)
  have rest : int32 (((n * n : Nat) : Int).tmod numWorks) =
      some ((n * n % numWorks : Nat) : Int) := by
    rw [← Int.ofNat_tmod]
    exact int32_natCast _ fits (Nat.mod_le ..)
  have inside : (rangeStart (n * n / numWorks) (n * n % numWorks) (0 + numWorks) : Int) ≤
      INT_MAX := by
    rwa [Nat.zero_add, rangeStart_last (n * n) positive]
  have loop := rangesFrom_eq (by rwa [Nat.zero_add]) inside
  rw [rangeStart_zero, ← List.range_eq_range'] at loop
  simp only [requestRanges, total, size, rest, Option.bind_eq_bind, Option.bind_some]
  exact loop

/-- Two ranges of the closed form that hold one cell are the same. -/
theorem range_unique {cell k j : Nat} (start : rangeStart workSize remainder k ≤ cell)
    (ends : cell < rangeStart workSize remainder (k + 1))
    (start' : rangeStart workSize remainder j ≤ cell)
    (ends' : cell < rangeStart workSize remainder (j + 1)) : k = j := by
  rcases Nat.lt_trichotomy k j with before | same | behind
  · have mono : rangeStart workSize remainder (k + 1) ≤ rangeStart workSize remainder j :=
      rangeStart_mono before
    omega
  · exact same
  · have mono : rangeStart workSize remainder (j + 1) ≤ rangeStart workSize remainder k :=
      rangeStart_mono behind
    omega

/-- The closed form is a partition of the cells. -/
theorem partitions_closed (total : Nat) (positive : 0 < numWorks) :
    Partitions total numWorks
      ((List.range numWorks).map (closedRange (total / numWorks) (total % numWorks))) where
  count := by rw [List.length_map, List.length_range]
  first := by
    obtain ⟨m, rfl⟩ := Nat.exists_eq_succ_of_ne_zero (Nat.ne_of_gt positive)
    rw [List.range_succ_eq_map]
    simp [closedRange]
  last := by
    obtain ⟨m, rfl⟩ := Nat.exists_eq_succ_of_ne_zero (Nat.ne_of_gt positive)
    rw [List.range_succ, List.map_append, List.map_singleton, List.getLast?_append]
    simp [closedRange, rangeStart_last total positive]
  consecutive := by
    rw [List.isChain_iff_getElem]
    intro k inside
    simp [closedRange]
  forwards := by
    intro range member
    obtain ⟨k, _, rfl⟩ := List.mem_map.mp member
    exact Int.ofNat_le.mpr (rangeStart_mono (Nat.le_succ k))
  covered := by
    intro cell lower upper
    obtain ⟨c, rfl⟩ := Int.eq_ofNat_of_zero_le lower
    have found : ∀ k range, ((List.range numWorks).map
        (closedRange (total / numWorks) (total % numWorks)))[k]? = some range ↔
          k < numWorks ∧ range = closedRange (total / numWorks) (total % numWorks) k := by
      intro k range
      rw [List.getElem?_map]
      by_cases inside : k < numWorks
      · simp [inside, eq_comm]
      · simp [inside]
    have below : c < rangeStart (total / numWorks) (total % numWorks) numWorks := by
      rw [rangeStart_last total positive]
      exact Int.ofNat_lt.mp upper
    obtain ⟨k, inside, start, ends⟩ := exists_range below
    refine ⟨k, ⟨_, (found k _).mpr ⟨inside, rfl⟩, Int.ofNat_le.mpr start, Int.ofNat_lt.mpr ends⟩, ?_⟩
    rintro j ⟨range, here, start', ends'⟩
    obtain ⟨_, rfl⟩ := (found j range).mp here
    exact range_unique (Int.ofNat_le.mp start') (Int.ofNat_lt.mp ends') start ends
  balanced := by
    intro range member other member'
    obtain ⟨k, _, rfl⟩ := List.mem_map.mp member
    obtain ⟨j, _, rfl⟩ := List.mem_map.mp member'
    have here := rangeStart_succ (total / numWorks) (total % numWorks) k
    have there := rangeStart_succ (total / numWorks) (total % numWorks) j
    simp only [closedRange]
    split at here <;> split at there <;> omega

/-- The works of a request have the ranges of the closed form. -/
theorem requestItems_ranges (a b : Matrix) :
    (requestItems n a b numWorks).map (fun work => ((work.start : Int), (work.end_ : Int))) =
      (List.range numWorks).map (closedRange (n * n / numWorks) (n * n % numWorks)) := by
  apply List.ext_getElem?
  intro k
  rw [List.getElem?_map, List.getElem?_map, requestItems_get]
  by_cases inside : k < numWorks
  · rw [if_pos inside, List.getElem?_range inside]
    simp [closedRange, item, requestJob, rangeEnd_rangeStart]
  · simp [inside]

/-- For any accepted number of rows and any number of works, `tpool_request` cuts the cells
into that many consecutive ranges of almost equal length, without an overflow, and these are
the ranges of the works it enqueues. -/
theorem ranges_partition (positive : 0 < numWorks) (works : (numWorks : Int) ≤ INT_MAX)
    (fits : (n * n : Nat) ≤ INT_MAX) :
    ∃ ranges, requestRanges n numWorks = some ranges ∧ Partitions (n * n) numWorks ranges ∧
      ∀ a b, (requestItems n a b numWorks).map (fun work => ((work.start : Int), (work.end_ : Int))) =
        ranges := by
  exact ⟨_, requestRanges_eq positive fits works, partitions_closed (n * n) positive,
    requestItems_ranges⟩

/-- Five works for the four cells of two rows: the last one has no cell. -/
theorem ranges_partition_more_works :
    ∃ ranges, requestRanges (2 : Nat) (5 : Nat) = some ranges ∧ Partitions 4 5 ranges := by
  obtain ⟨ranges, computed, partitions, _⟩ :=
    ranges_partition (n := 2) (show 0 < 5 by decide) (by decide) (by decide)
  exact ⟨ranges, computed, partitions⟩

/-! ## Requests without an overflow -/

instance (n : Nat) (m : Matrix) : Decidable (Accepted n m) :=
  decidable_of_iff (∀ i, i < n → ∀ j, j < n → -100 ≤ m i j ∧ m i j ≤ 100)
    ⟨fun accepted i j row col => accepted i row j col,
      fun accepted i row j col => accepted i j row col⟩

/-- An `int` counts the works and the cells, and the entries are accepted ones. -/
structure Request.Fits (n : Nat) (request : Request) : Prop where
  cells : (n * n : Nat) ≤ INT_MAX
  works : (request.numWorks : Int) ≤ INT_MAX
  rows : Accepted n request.a
  columns : Accepted n request.b

instance (n : Nat) (request : Request) : Decidable (request.Fits n) :=
  decidable_of_iff ((n * n : Nat) ≤ INT_MAX ∧ (request.numWorks : Int) ≤ INT_MAX ∧
      Accepted n request.a ∧ Accepted n request.b)
    ⟨fun ⟨cells, works, rows, columns⟩ => ⟨cells, works, rows, columns⟩,
      fun ⟨cells, works, rows, columns⟩ => ⟨cells, works, rows, columns⟩⟩

/-- The `int`s of C give the ranges of the works, and the cells of the product. -/
structure Request.Exact (n : Nat) (request : Request) : Prop where
  ranges : requestRanges n request.numWorks =
    some ((requestItems n request.a request.b request.numWorks).map
      fun work => ((work.start : Int), (work.end_ : Int)))
  cells : ∀ i j, i < n → j < n →
    calculationInt n (request.a i) (transposeB request.b j) =
      some (product n request.a request.b i j)

/-- Nothing overflows in a request that fits. -/
theorem Request.Fits.exact {request : Request} (fits : request.Fits n)
    (positive : 0 < request.numWorks) : request.Exact n where
  ranges := by
    rw [requestItems_ranges]
    exact requestRanges_eq positive fits.cells fits.works
  cells i j row col := by
    rw [← calculation_transposeB]
    exact (calculationInt_eq_some (rows_le fits.cells) (fun k inside => fits.rows i k row inside)
      fun k inside => fits.columns k j inside col).1

/-- Main makes no request whose arithmetic overflows, or with which `total_works` does. -/
def fitsInts (n : Nat) (s : State) : Action → Prop
  | .call (.request a b numWorks) =>
      Request.Fits n { a, b, numWorks } ∧ (s.totalWorks + numWorks : Nat) ≤ INT_MAX
  | _ => True

instance (n : Nat) (s : State) : (action : Action) → Decidable (fitsInts n s action)
  | .call (.request a b numWorks) =>
      inferInstanceAs (Decidable (Request.Fits n { a, b, numWorks } ∧
        (s.totalWorks + numWorks : Nat) ≤ INT_MAX))
  | .call .synchronize | .call .destroy | .main _ | .worker _ _ => isTrue trivial

end NTUSP.Pool
