import NTUSP.Threads.Model

/-!
# The circular queues of the scheduler

`enqueue` writes at `size` and `advance` moves `head`, both modulo `THREAD_MAX`.
What the queues list changes as a first-in first-out queue as long as one place
stays free; with all places taken `size` would meet `head` and the queue would
look empty.
-/

namespace NTUSP.Threads.TcbQueue

open NTUSP.Library

/-- An array of `THREAD_MAX` places and two indices into it. -/
structure Valid (q : TcbQueue) : Prop where
  length : q.arr.length = THREAD_MAX
  head : q.head < THREAD_MAX
  size : q.size < THREAD_MAX

/-- `size` has gone round the end of the array and `head` has not. -/
def Wrapped (q : TcbQueue) : Prop := q.size < q.head

variable {q : TcbQueue}

theorem empty_valid : empty.Valid := by
  constructor <;> simp [empty, THREAD_MAX]

theorem enqueue_valid (valid : q.Valid) (p : Nat) : (q.enqueue p).Valid where
  length := by simpa [enqueue] using valid.length
  head := valid.head
  size := Nat.mod_lt _ (by simp [THREAD_MAX])

theorem advance_valid (valid : q.Valid) : q.advance.Valid where
  length := valid.length
  head := Nat.mod_lt _ (by simp [THREAD_MAX])
  size := valid.size

theorem length_contents : q.contents.length = Ring.gap THREAD_MAX q.head q.size := by
  simp [contents, Ring.segment]

theorem contents_eq_nil (valid : q.Valid) : q.contents = [] ↔ q.head = q.size :=
  Ring.segment_eq_nil valid.head valid.size

/-- `enqueue` appends as long as a place stays free behind it. -/
theorem contents_enqueue (valid : q.Valid) (p : Nat)
    (room : q.contents.length + 1 < THREAD_MAX) :
    (q.enqueue p).contents = q.contents ++ [p] := by
  rw [length_contents] at room
  exact Ring.segment_push p valid.length valid.head valid.size room

/-- `advance` drops the first entry. -/
theorem contents_advance (valid : q.Valid) (nonempty : q.head ≠ q.size) :
    q.contents = q.arr.getD q.head 0 :: q.advance.contents :=
  Ring.segment_pop valid.head valid.size nonempty

/-- An `enqueue` wraps the queue exactly when it writes the last place. -/
theorem enqueue_wrapped (valid : q.Valid) (p : Nat)
    (room : q.contents.length + 1 < THREAD_MAX) :
    (q.enqueue p).Wrapped ↔ q.Wrapped ∨ q.size + 1 = THREAD_MAX := by
  have headIn := valid.head
  have sizeIn := valid.size
  rw [length_contents] at room
  simp only [Wrapped, enqueue]
  by_cases last : q.size + 1 = THREAD_MAX
  · rw [last, Nat.mod_self]
    rw [Ring.gap_of_le (by omega) sizeIn] at room
    simp only [or_true, iff_true]
    omega
  · rw [Nat.mod_eq_of_lt (by omega)]
    simp only [last, or_false]
    refine ⟨fun _ => by omega, fun wrapped => ?_⟩
    rw [Ring.gap_of_gt wrapped headIn] at room
    omega

/-- A wrapped queue lists at least one entry. -/
theorem contents_ne_nil_of_wrapped (valid : q.Valid) (wrapped : q.Wrapped) : q.contents ≠ [] := by
  intro empty
  have same := (contents_eq_nil valid).mp empty
  unfold Wrapped at wrapped
  omega

end NTUSP.Threads.TcbQueue
