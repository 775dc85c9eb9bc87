import NTUSP.Library.Int32
import NTUSP.Library.Machine
import NTUSP.Pool.Model
import Mathlib.Algebra.Order.BigOperators.Group.Finset
import Mathlib.Tactic.Linarith

/-!
# The product from works in any order

The items that one `tpool_request` creates, each executed once. A step is one turn of the
loop of one item, so any order of the items and any interleaving of their cells is a run.
Here the `int` arithmetic of `calculation` is checked, and so is that a cell is one of `c`.
-/

namespace NTUSP.Pool

open NTUSP.Library

/-- `calculation` of `main.c` with `int` arithmetic; `none` when it overflows. -/
def calculationInt (n : Nat) (a b : Nat → Int) : Option Int :=
  (List.range n).foldlM (fun res i => do
    let scaled ← int32 (a i * b i)
    int32 (res + scaled)) 0

/-- Turn `i` of the loop in `tpool_request`. -/
def item (n : Nat) (job : Job) (i start : Nat) : Work where
  a := job.a
  b := job.transposeB
  c := job.c
  start := start
  end_ := rangeEnd job.workSize job.remainder start i
  n := n
  pointer := i

/-- Up to its address, it is the item main enqueues. -/
theorem newWork_eq_item (s : State) (n : Nat) (job : Job) (i start : Nat) :
    s.newWork n job i start = { item n job i start with pointer := s.enqueued.length } := rfl

/-- The remaining turns of that loop, from `i` on. -/
def itemsFrom (n : Nat) (job : Job) (i start : Nat) : Nat → List Work
  | 0 => []
  | turns + 1 =>
      let work := item n job i start
      work :: itemsFrom n job (i + 1) work.end_ turns

/-- What `tpool_request` makes of its arguments. -/
def requestJob (n : Nat) (a b : Matrix) (numWorks : Nat) : Job where
  a := a
  transposeB := transposeB b
  c := 0
  numWorks := numWorks
  workSize := n * n / numWorks
  remainder := n * n % numWorks

/-- The items of one `tpool_request`. -/
def requestItems (n : Nat) (a b : Matrix) (numWorks : Nat) : List Work :=
  itemsFrom n (requestJob n a b numWorks) 0 0 numWorks

/-- What the execution of an item must not do. -/
inductive Fault where
  | overflow
  | outsideC
  deriving DecidableEq

/-- The output matrix, and the loop counter of every item. -/
structure Execution where
  c : Matrix
  next : Nat → Nat
  fault : Option Fault

namespace Execution

/-- `c[row][col] = value`, where `c` has `n` rows of `n` cells. -/
def write (n : Nat) (e : Execution) (row col : Nat) (value : Int) : Execution :=
  if row < n ∧ col < n then
    { e with c := fun i j => if i = row ∧ j = col then value else e.c i j }
  else { e with fault := some .outsideC }

/-- Lines 23 to 27 of `tpool.c`: a turn of the loop of item `k`. -/
def step (n : Nat) (works : List Work) (e : Execution) (k : Nat) : Option Execution :=
  match works[k]? with
  | none => none
  | some work =>
      let i := e.next k
      if e.fault.isNone ∧ i < work.end_ then
        let row := i / work.n
        let col := i % work.n
        let e := { e with next := Function.update e.next k (i + 1) }
        match calculationInt work.n (work.a row) (work.b col) with
        | none => some { e with fault := some .overflow }
        | some value => some (e.write n row col value)
      else none

/-- Before any cell is computed. -/
def start (works : List Work) : Execution where
  c := fun _ _ => 0
  next k := works[k]?.elim 0 Work.start
  fault := none

/-- Every item has been executed. -/
def Finished (works : List Work) (e : Execution) : Prop :=
  ∀ k work, works[k]? = some work → work.end_ ≤ e.next k

end Execution

/-- The executions of the items of a request. -/
def execution (n : Nat) (works : List Work) : Machine Execution Nat where
  Initial e := e = .start works
  step e k := e.step n works k

/-! ## The arithmetic of `calculation` -/

/-- The entries `main` accepts. -/
def Accepted (n : Nat) (m : Matrix) : Prop := ∀ i j, i < n → j < n → -100 ≤ m i j ∧ m i j ≤ 100

theorem mul_bounds {x y : Int} (xBounds : -100 ≤ x ∧ x ≤ 100) (yBounds : -100 ≤ y ∧ y ≤ 100) :
    -10000 ≤ x * y ∧ x * y ≤ 10000 := by
  obtain ⟨xLower, xUpper⟩ := xBounds
  obtain ⟨yLower, yUpper⟩ := yBounds
  constructor <;> nlinarith

/-- The first products of a row and a column sum up within the `int`s. -/
theorem calculationInt_eq_some {n : Nat} {a b : Nat → Int} (small : n ≤ 46340)
    (aBounds : ∀ i < n, -100 ≤ a i ∧ a i ≤ 100) (bBounds : ∀ i < n, -100 ≤ b i ∧ b i ≤ 100) :
    calculationInt n a b = some (calculation n a b) ∧
      -((10000 * n : Nat) : Int) ≤ calculation n a b ∧
      calculation n a b ≤ ((10000 * n : Nat) : Int) := by
  induction n with
  | zero => exact ⟨rfl, by simp [calculation], by simp [calculation]⟩
  | succ n ih =>
    obtain ⟨computed, lower, upper⟩ := ih (by omega) (fun i inside => aBounds i (by omega))
      (fun i inside => bBounds i (by omega))
    obtain ⟨scaledLower, scaledUpper⟩ := mul_bounds (aBounds n (by omega)) (bBounds n (by omega))
    have next : calculation (n + 1) a b = calculation n a b + a n * b n := by
      unfold calculation
      rw [List.range_succ, List.foldl_append]
      rfl
    have scaled : int32 (a n * b n) = some (a n * b n) :=
      int32_within 10000 (by decide) (by omega) (by omega)
    have added : int32 (calculation n a b + a n * b n) = some (calculation n a b + a n * b n) :=
      int32_within (10000 * (n + 1)) (by unfold INT_MAX; omega) (by omega) (by omega)
    refine ⟨?_, by omega, by omega⟩
    unfold calculationInt at computed ⊢
    rw [List.range_succ, List.foldlM_append, computed, next]
    simp [scaled, added]

/-- Matrices with at most `2^31 - 1` cells have at most 46340 rows. -/
theorem rows_le {n : Nat} (fits : (n * n : Nat) ≤ INT_MAX) : n ≤ 46340 := by
  unfold INT_MAX at fits
  by_contra large
  have squared : 46341 * 46341 ≤ n * n := Nat.mul_le_mul (by omega) (by omega)
  omega

/-! ## The ranges of the items -/

/-- Item `k` starts where the closed form says. -/
theorem itemsFrom_get {n k : Nat} {job : Job} {i turns : Nat} :
    (itemsFrom n job i (rangeStart job.workSize job.remainder i) turns)[k]? =
      if k < turns then some (item n job (i + k) (rangeStart job.workSize job.remainder (i + k)))
      else none := by
  induction turns generalizing i k with
  | zero => rfl
  | succ turns ih =>
    have after : (item n job i (rangeStart job.workSize job.remainder i)).end_ =
        rangeStart job.workSize job.remainder (i + 1) := rangeEnd_rangeStart ..
    unfold itemsFrom
    dsimp only
    rw [after]
    cases k with
    | zero => simp
    | succ k =>
      rw [List.getElem?_cons_succ, ih]
      simp only [Nat.add_lt_add_iff_right, Nat.add_assoc, Nat.add_comm 1 k]

/-- A cell below the end of the ranges is in one of them. -/
theorem exists_range {workSize remainder cell m : Nat}
    (below : cell < rangeStart workSize remainder m) :
    ∃ k < m, rangeStart workSize remainder k ≤ cell ∧
      cell < rangeStart workSize remainder (k + 1) := by
  induction m with
  | zero =>
    rw [rangeStart_zero] at below
    omega
  | succ m ih =>
    rcases Nat.lt_or_ge cell (rangeStart workSize remainder m) with earlier | here
    · obtain ⟨k, inside, range⟩ := ih earlier
      exact ⟨k, by omega, range⟩
    · exact ⟨m, by omega, here, below⟩

section

variable {n numWorks k : Nat} {a b : Matrix} {work : Work}

theorem requestItems_eq (n : Nat) (a b : Matrix) (numWorks : Nat) :
    requestItems n a b numWorks = itemsFrom n (requestJob n a b numWorks) 0
      (rangeStart (requestJob n a b numWorks).workSize (requestJob n a b numWorks).remainder 0)
      numWorks := by
  rw [rangeStart_zero]
  rfl

/-- The items of a request, with their ranges. -/
theorem requestItems_get : (requestItems n a b numWorks)[k]? =
    if k < numWorks then
      some (item n (requestJob n a b numWorks) k
        (rangeStart (n * n / numWorks) (n * n % numWorks) k))
    else none := by
  rw [requestItems_eq, itemsFrom_get, Nat.zero_add]
  rfl

/-- An item computes cells of the product of its request. -/
structure Computes (n : Nat) (a b : Matrix) (work : Work) : Prop where
  size : work.n = n
  rows : work.a = a
  columns : work.b = transposeB b
  last : work.end_ ≤ n * n

theorem item_end (n k : Nat) (job : Job) :
    (item n job k (rangeStart job.workSize job.remainder k)).end_ =
      rangeStart job.workSize job.remainder (k + 1) := rangeEnd_rangeStart ..

/-- No item goes behind the last cell. -/
theorem requestItems_computes (positive : 0 < numWorks)
    (found : (requestItems n a b numWorks)[k]? = some work) : Computes n a b work := by
  rw [requestItems_get] at found
  split at found
  · rename_i inside
    obtain rfl := Option.some.inj found
    refine ⟨rfl, rfl, rfl, ?_⟩
    have mono : rangeStart (n * n / numWorks) (n * n % numWorks) (k + 1) ≤
        rangeStart (n * n / numWorks) (n * n % numWorks) numWorks :=
      rangeStart_mono (Nat.succ_le_of_lt inside)
    rw [rangeStart_last (n * n) positive] at mono
    exact Nat.le_trans (Nat.le_of_eq (item_end n k (requestJob n a b numWorks))) mono
  · cases found

/-- Every cell is in the range of an item. -/
theorem requestItems_cover (positive : 0 < numWorks) {cell : Nat} (inside : cell < n * n) :
    ∃ (k : Nat) (work : Work), (requestItems n a b numWorks)[k]? = some work ∧
      work.start ≤ cell ∧ cell < work.end_ := by
  rw [← rangeStart_last (n * n) positive] at inside
  obtain ⟨k, below, first, last⟩ := exists_range inside
  refine ⟨k, _, requestItems_get.trans (if_pos below), first, ?_⟩
  exact Nat.lt_of_lt_of_le last (Nat.le_of_eq (item_end n k (requestJob n a b numWorks)).symm)

end

/-! ## Every interleaving -/

namespace Execution

variable {n numWorks : Nat} {a b : Matrix}

/-- No fault so far, and every cell that an item has passed holds its value. -/
structure Sound (n : Nat) (a b : Matrix) (works : List Work) (e : Execution) : Prop where
  fault : e.fault = none
  begun : ∀ k work, works[k]? = some work → work.start ≤ e.next k
  cells : ∀ k work cell, works[k]? = some work → work.start ≤ cell → cell < e.next k →
    e.c (cell / n) (cell % n) = product n a b (cell / n) (cell % n)

theorem start_sound (works : List Work) : (start works).Sound n a b works where
  fault := rfl
  begun k work found := by simp [start, found]
  cells k work cell found first below := by
    simp only [start, found, Option.elim_some] at below
    omega

/-- The turns that are left. -/
def left (works : List Work) (e : Execution) : Nat :=
  ∑ k ∈ Finset.range works.length, (works[k]?.elim 0 Work.end_ - e.next k)

/-- A turn of an unfinished item writes its next cell with the value of the product. -/
theorem Sound.step_eq {e : Execution} {k : Nat} {work : Work}
    (sound : e.Sound n a b (requestItems n a b numWorks)) (positive : 0 < numWorks)
    (small : n ≤ 46340) (aAccepted : Accepted n a) (bAccepted : Accepted n b)
    (found : (requestItems n a b numWorks)[k]? = some work) (more : e.next k < work.end_) :
    e.step n (requestItems n a b numWorks) k = some
      { c := fun i j =>
          if i = e.next k / n ∧ j = e.next k % n then
            product n a b (e.next k / n) (e.next k % n)
          else e.c i j
        next := Function.update e.next k (e.next k + 1)
        fault := none } := by
  have computes := requestItems_computes positive found
  have inside : e.next k < n * n := Nat.lt_of_lt_of_le more computes.last
  have rows : 0 < n := Nat.pos_of_ne_zero fun zero => by simp [zero] at inside
  have row : e.next k / n < n := (Nat.div_lt_iff_lt_mul rows).mpr inside
  have col : e.next k % n < n := Nat.mod_lt _ rows
  have computed := (calculationInt_eq_some (a := a (e.next k / n))
    (b := transposeB b (e.next k % n)) small (fun i below => aAccepted _ i row below)
    (fun i below => bAccepted i _ below col)).1
  rw [calculation_transposeB] at computed
  have running : e.fault.isNone = true := by rw [sound.fault]; rfl
  unfold step
  rw [found]
  dsimp only
  rw [if_pos ⟨running, more⟩, computes.size, computes.rows, computes.columns,
    computed]
  dsimp only [write]
  rw [if_pos ⟨row, col⟩, sound.fault]

/-- A turn keeps what the others have written. -/
theorem Sound.step {e e' : Execution} {k : Nat}
    (sound : e.Sound n a b (requestItems n a b numWorks)) (positive : 0 < numWorks)
    (small : n ≤ 46340) (aAccepted : Accepted n a) (bAccepted : Accepted n b)
    (transition : e.step n (requestItems n a b numWorks) k = some e') :
    e'.Sound n a b (requestItems n a b numWorks) ∧
      e'.left (requestItems n a b numWorks) < e.left (requestItems n a b numWorks) := by
  cases found : (requestItems n a b numWorks)[k]? with
  | none =>
    unfold Execution.step at transition
    rw [found] at transition
    cases transition
  | some work =>
    by_cases more : e.next k < work.end_
    · rw [sound.step_eq positive small aAccepted bAccepted found more] at transition
      obtain rfl := Option.some.inj transition
      refine ⟨⟨rfl, fun j other here => ?_, fun j other cell here first below => ?_⟩, ?_⟩
      · have begun := sound.begun j other here
        dsimp only
        by_cases same : j = k
        · subst same
          rw [Function.update_self]
          omega
        · rwa [Function.update_of_ne same]
      · dsimp only at below ⊢
        split
        · rename_i same
          rw [same.1, same.2]
        · rename_i apart
          by_cases same : j = k
          · subst same
            rw [Function.update_self] at below
            refine sound.cells j other cell here first ?_
            by_contra late
            have equal : cell = e.next j := by omega
            exact apart ⟨by rw [equal], by rw [equal]⟩
          · rw [Function.update_of_ne same] at below
            exact sound.cells j other cell here first below
      · have within : k < (requestItems n a b numWorks).length :=
          (List.getElem?_eq_some_iff.mp found).1
        refine Finset.sum_lt_sum (fun j _ => ?_) ⟨k, Finset.mem_range.mpr within, ?_⟩
        · dsimp only
          by_cases same : j = k
          · subst same
            rw [Function.update_self]
            omega
          · rw [Function.update_of_ne same]
        · dsimp only
          rw [Function.update_self, found, Option.elim_some]
          omega
    · unfold Execution.step at transition
      rw [found] at transition
      dsimp only at transition
      rw [if_neg fun both => more both.2] at transition
      cases transition

/-- When every item has been executed, every cell has been written. -/
theorem Sound.finished {e : Execution} (sound : e.Sound n a b (requestItems n a b numWorks))
    (positive : 0 < numWorks) (done : e.Finished (requestItems n a b numWorks)) {i j : Nat}
    (row : i < n) (col : j < n) : e.c i j = product n a b i j := by
  have inside : i * n + j < n * n := by
    have scaled := Nat.mul_le_mul_right n (Nat.succ_le_of_lt row)
    rw [Nat.succ_mul] at scaled
    omega
  obtain ⟨k, work, found, first, last⟩ := requestItems_cover (a := a) (b := b) positive inside
  have cell := sound.cells k work (i * n + j) found first
    (Nat.lt_of_lt_of_le last (done k work found))
  have rows : 0 < n := by omega
  have quotient : (i * n + j) / n = i := by
    rw [Nat.mul_comm, Nat.mul_add_div rows, Nat.div_eq_of_lt col, Nat.add_zero]
  have rest : (i * n + j) % n = j := by
    rw [Nat.mul_comm, Nat.mul_add_mod, Nat.mod_eq_of_lt col]
  rwa [quotient, rest] at cell

/-- Where a request is done, its output matrix is the product. -/
structure Complete (n : Nat) (a b : Matrix) (works : List Work) (e : Execution) : Prop where
  fault : e.fault = none
  finished : e.Finished works
  product : ∀ i j, i < n → j < n → e.c i j = product n a b i j

theorem Sound.complete {e : Execution} (sound : e.Sound n a b (requestItems n a b numWorks))
    (positive : 0 < numWorks) (done : e.Finished (requestItems n a b numWorks)) :
    e.Complete n a b (requestItems n a b numWorks) :=
  ⟨sound.fault, done, fun _ _ row col => sound.finished positive done row col⟩

/-- Until every item has been executed, one of them can go on. -/
theorem Sound.possible {e : Execution} (sound : e.Sound n a b (requestItems n a b numWorks))
    (positive : 0 < numWorks) (small : n ≤ 46340) (aAccepted : Accepted n a)
    (bAccepted : Accepted n b) (unfinished : ¬ e.Finished (requestItems n a b numWorks)) :
    ∃ k next, e.step n (requestItems n a b numWorks) k = some next := by
  unfold Finished at unfinished
  push Not at unfinished
  obtain ⟨k, work, found, more⟩ := unfinished
  exact ⟨k, _, sound.step_eq positive small aAccepted bAccepted found more⟩

end Execution

open Execution

variable {n numWorks : Nat} {a b : Matrix}

/-- Whatever turn is taken next, no item overflows or writes outside `c`, and every item is
executed at some time. Then `c` is the product. -/
theorem product_of_any_order (positive : 0 < numWorks) (fits : (n * n : Nat) ≤ INT_MAX)
    (aAccepted : Accepted n a) (bAccepted : Accepted n b) :
    (∀ e, (execution n (requestItems n a b numWorks)).Reach Machine.anyStep e →
      e.fault = none ∧ (e.Finished (requestItems n a b numWorks) →
        e.Complete n a b (requestItems n a b numWorks))) ∧
    (execution n (requestItems n a b numWorks)).Inevitable Machine.anyStep
      (Complete n a b (requestItems n a b numWorks)) (.start (requestItems n a b numWorks)) := by
  have small := rows_le fits
  constructor
  · intro e reached
    have sound : e.Sound n a b (requestItems n a b numWorks) := by
      refine reached.invariant _ ?_ ?_
      · rintro state rfl
        exact start_sound _
      · intro state k next _ sound _ transition
        exact (sound.step positive small aAccepted bAccepted transition).1
    exact ⟨sound.fault, sound.complete positive⟩
  · have begun : (start (requestItems n a b numWorks)).Sound n a b (requestItems n a b numWorks) :=
      start_sound _
    by_cases done : (start (requestItems n a b numWorks)).Finished (requestItems n a b numWorks)
    · exact .now (begun.complete positive done)
    refine Machine.Inevitable.of_variant Nat.lt_wfRel.wf
      (fun measure e => e.Sound n a b (requestItems n a b numWorks) ∧
        e.left (requestItems n a b numWorks) = measure ∧
        ¬ e.Finished (requestItems n a b numWorks)) ?_ ?_ _ ⟨begun, rfl, done⟩
    · rintro measure e ⟨sound, _, unfinished⟩
      obtain ⟨k, next, transition⟩ := sound.possible positive small aAccepted bAccepted unfinished
      exact ⟨k, next, trivial, transition⟩
    · rintro measure e k next ⟨sound, rfl, _⟩ _ transition
      obtain ⟨still, fewer⟩ := sound.step positive small aAccepted bAccepted transition
      by_cases finished : next.Finished (requestItems n a b numWorks)
      · exact .inl (still.complete positive finished)
      · exact .inr ⟨_, fewer, still, rfl, finished⟩

/-- Three works for the four cells of a square. -/
theorem product_of_three_works :
    (execution 2 (requestItems 2 (fun i j => i + j) (fun i j => 100 - i - j) 3)).Inevitable
      Machine.anyStep
      (Complete 2 (fun i j => i + j) (fun i j => 100 - i - j)
        (requestItems 2 (fun i j => i + j) (fun i j => 100 - i - j) 3))
      (.start (requestItems 2 (fun i j => i + j) (fun i j => 100 - i - j) 3)) := by
  refine (product_of_any_order (by decide) (by decide) ?_ ?_).2
  all_goals
    intro i j row col
    dsimp only
    omega

end NTUSP.Pool
