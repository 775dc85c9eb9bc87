import NTUSP.Pool.Accounting

/-!
# The ring of the thread pool

`tpool_request` never compares `queue_size` with `MAX_QUEUE_SIZE`. The items come
out exactly once and in order as long as no enqueue meets a full ring, and the
first enqueue that does loses the oldest item.
-/

namespace NTUSP.Pool

open NTUSP.Library

/-- Every item enqueued so far has been dequeued once, in order, or is still in its
slot, in order, and `queue_size` counts those. -/
structure Delivers (s : State) : Prop where
  inOrder : s.enqueued = s.dequeued ++ s.contents
  counted : s.contents.length = s.queueSize
  once : (s.dequeued.map Work.pointer).Nodup

theorem QueueOk.delivers {s : State} (ok : QueueOk s) : Delivers s where
  inOrder := ok.history
  counted := ok.filled
  once := by
    have all : (s.enqueued.map Work.pointer).Nodup := by
      rw [ok.pointers]
      exact List.nodup_range
    rw [ok.history, List.map_append] at all
    exact (List.nodup_append.mp all).1

/-- Every item got an address below the number of items. -/
theorem QueueOk.pointer_lt {s : State} (ok : QueueOk s) {work : Work}
    (member : work ∈ s.enqueued) : work.pointer < s.enqueued.length := by
  have listed : work.pointer ∈ s.enqueued.map Work.pointer := List.mem_map_of_mem member
  rw [ok.pointers] at listed
  exact List.mem_range.mp listed

/-- An enqueue into a full ring puts the new item first. -/
theorem QueueOk.contents_overrun {s : State} (ok : QueueOk s) (work : Work)
    (full : s.queueSize = MAX_QUEUE_SIZE) :
    ∃ rest, (s.putWork work).contents = work :: rest := by
  have rear : s.rear = s.front := by
    rw [ok.rear_eq, full, Nat.add_mod_right, Nat.mod_eq_of_lt ok.front_lt]
  have inside : s.front < s.workQueue.length := by
    rw [ok.size]
    exact ok.front_lt
  have first : (s.workQueue.set s.front (some work)).getD s.front default = some work := by
    rw [List.getD_eq_getElem?_getD, List.getElem?_set_self inside]
    rfl
  simp only [State.contents, State.putWork, rear, Ring.window_pop, Nat.mod_eq_of_lt ok.front_lt,
    first, List.filterMap_cons, id]
  exact ⟨_, rfl⟩

/-- An enqueue into a full ring loses the item that was next to be dequeued. -/
theorem QueueOk.overrun_loses {n : Nat} {s t : State} (ok : QueueOk s) {job : Job} {i start : Nat}
    (full : MAX_QUEUE_SIZE ≤ s.queueSize)
    (stored : t.queue = (s.putWork (s.newWork n job i start)).queue) : ¬ Delivers t := by
  intro delivers
  have exactly : s.queueSize = MAX_QUEUE_SIZE := Nat.le_antisymm ok.bounded full
  obtain ⟨rest, contents⟩ := ok.contents_overrun (s.newWork n job i start) exactly
  have same : t.contents = s.newWork n job i start :: rest := by
    rw [contents_congr stored, contents]
  simp only [State.queue, Prod.mk.injEq] at stored
  obtain ⟨_, _, _, _, enqueued, dequeued⟩ := stored
  have order := delivers.inOrder
  rw [enqueued, dequeued, same] at order
  simp only [State.putWork] at order
  rw [ok.history, List.append_assoc, List.append_cancel_left_eq] at order
  cases oldest : s.contents with
  | nil =>
      have filled := ok.filled
      rw [oldest, exactly] at filled
      cases filled
  | cons old more =>
      rw [oldest, List.cons_append, List.cons.injEq] at order
      have member : old ∈ s.enqueued := by
        rw [ok.history, oldest]
        simp
      have below := ok.pointer_lt member
      rw [order.1] at below
      exact Nat.lt_irrefl _ below

/-- The step of an overrunning action is the enqueue it names. -/
theorem overruns_stores {n : Nat} {s t : State} {action : Action}
    (overruns : s.overruns action = true) (stepped : s.step n action = some t) :
    MAX_QUEUE_SIZE ≤ s.queueSize ∧
      ∃ job i start, t.queue = (s.putWork (s.newWork n job i start)).queue := by
  unfold State.overruns at overruns
  split at overruns
  · rename_i woken job i start at_pc
    refine ⟨of_decide_eq_true overruns, job, i, start, ?_⟩
    have statement := State.stepMain_cases stepped
    rw [at_pc] at statement
    cases statement with
    | control lock move => cases move
    | put signalled =>
        have same := signal_queue signalled
        exact same
  · cases overruns

/-- In the runs whose enqueues all find room, items come out once and in order; and
from any state of such a run a step keeps it so exactly when it is not an enqueue
into a full ring. -/
theorem delivers_iff_keepsRoom {numThreads n : Nat} {s : State}
    (reached : (machine numThreads n).Reach keepsRoom s) :
    Delivers s ∧ ∀ action t, s.step n action = some t → (Delivers t ↔ keepsRoom s action) := by
  have ok := reach_queueOk reached
  refine ⟨ok.delivers, ?_⟩
  intro action t stepped
  constructor
  · intro delivers
    cases overruns : s.overruns action with
    | false => exact overruns
    | true =>
        obtain ⟨full, job, i, start, stored⟩ := overruns_stores overruns stepped
        exact absurd delivers (ok.overrun_loses full stored)
  · intro allowed
    exact (step_queueOk ok allowed stepped).delivers

/-- Main calls `tpool_request` and runs through its loop; no worker takes a step. -/
def requestAlone (a b : Matrix) (numWorks : Nat) : List Action :=
  .call (.request a b numWorks) :: List.replicate (3 + 3 * numWorks) (.main none)

/-- A worker blocks, main requests two works and wakes it: both items are in the ring
when `tpool_request` returns. -/
theorem delivers_two_works :
    ∃ s, (machine 1 2).Reach keepsRoom s ∧ s.enqueued.length = 2 ∧ Delivers s ∧
      ∀ action t, s.step 2 action = some t → (Delivers t ↔ keepsRoom s action) := by
  have ran : ((machine 1 2).exec (fun s action => !s.overruns action) (tpoolInit 1)
      [.worker 0 none, .worker 0 none, .call (.request (fun _ _ => 1) (fun _ _ => 1) 2),
        .main none, .main none, .main none, .main none, .main (some (.worker 0)), .main none,
        .main none, .main none, .main none]).map (fun s => s.enqueued.length) = some 2 := by
    decide +kernel
  obtain ⟨s, runs, count⟩ := Option.map_eq_some_iff.mp ran
  exact ⟨s, reach_of_exec runs, count, delivers_iff_keepsRoom (reach_of_exec runs)⟩

/-- One worker, `n = 1`, one request of 101 works, and main runs before the worker
does: item 100 is stored over item 0, which no worker has dequeued. -/
theorem overrun_reachable :
    ∃ s, (machine 1 1).Reach Library.Machine.anyStep s ∧ s.enqueued.length = 101 ∧
      s.dequeued = [] ∧ (∀ work ∈ s.contents, work.pointer ≠ 0) ∧ ¬ Delivers s := by
  have ran : ((machine 1 1).exec (fun _ _ => true) (tpoolInit 1)
      (requestAlone (fun _ _ => 1) (fun _ _ => 1) 101)).map
        (fun s => (s.enqueued.map Work.pointer, s.dequeued.length,
          s.contents.map Work.pointer)) =
      some (List.range 101, 0, 100 :: List.range' 1 100) := by decide +kernel
  obtain ⟨s, runs, result⟩ := Option.map_eq_some_iff.mp ran
  simp only [Prod.mk.injEq] at result
  obtain ⟨enqueued, dequeued, contents⟩ := result
  have length : s.enqueued.length = 101 := by
    rw [← List.length_map Work.pointer, enqueued, List.length_range]
  have empty : s.dequeued = [] := List.eq_nil_of_length_eq_zero dequeued
  refine ⟨s, (Library.Machine.Reach.initial rfl).exec (fun _ _ _ => trivial) runs, length, empty,
    ?_, ?_⟩
  · intro work member
    have listed : work.pointer ∈ s.contents.map Work.pointer := List.mem_map_of_mem member
    rw [contents] at listed
    simp only [List.mem_cons, List.mem_range'_1] at listed
    omega
  · intro delivers
    have order := congrArg (List.map Work.pointer) delivers.inOrder
    rw [enqueued, empty, List.nil_append, contents] at order
    exact absurd order (by decide)

end NTUSP.Pool
