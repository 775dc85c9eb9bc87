import NTUSP.Pool.Deadlock

/-!
# Shutting the pool down

`tpool_destroy` sets the flag under the mutex and wakes every blocked worker, and a worker
leaves its loop only with the flag set and the queue empty. So nobody sleeps through the
shutdown, and the last join leaves an empty queue. The history of dequeues, cells and
frees says who executed which item.
-/

namespace NTUSP.Pool

open NTUSP.Library

/-- Main has set the flag of `tpool_destroy`. -/
def MainPc.closing : MainPc → Bool
  | .destroyUnlock | .join _ | .destroyed => true
  | _ => false

/-- A worker behind its loop. -/
def WorkerPc.exited : WorkerPc → Bool
  | .leave | .done => true
  | _ => false

/-- The flag, the workers that have seen it, and those main has joined. -/
structure Closing (s : State) : Prop where
  flag : s.terminate = s.main.closing
  woken : s.terminate = true → ∀ pc ∈ s.workers, State.isWait pc = false
  drained : ∀ pc ∈ s.workers, pc.exited = true → s.terminate = true ∧ s.queueSize = 0
  joined : ∀ i, s.main = .join i → ∀ j, j < i → s.workers[j]? = some .done
  all : s.main = .destroyed → ∀ pc ∈ s.workers, pc = .done

namespace Closing

variable {n i : Nat} {s t : State} {pc next : WorkerPc} {woken : Option Thread}

/-- Only the flag, main, the workers and the emptiness of the queue matter. -/
theorem of_same (closing : Closing s) (terminate : t.terminate = s.terminate)
    (main : t.main = s.main) (workers : t.workers = s.workers)
    (empty : s.terminate = true → s.queueSize = 0 → t.queueSize = 0) : Closing t where
  flag := by rw [terminate, main, closing.flag]
  woken := by
    rw [terminate, workers]
    exact closing.woken
  drained := by
    rw [terminate, workers]
    intro pc member exited
    obtain ⟨flag, drained⟩ := closing.drained pc member exited
    exact ⟨flag, empty flag drained⟩
  joined := by
    rw [main, workers]
    exact closing.joined
  all := by
    rw [main, workers]
    exact closing.all

/-- A worker goes on to where the flag and the queue let it. -/
theorem setWorker (closing : Closing s) (found : s.workers[i]? = some pc) (moves : pc ≠ .done)
    (blocks : State.isWait next = true → s.terminate = false)
    (exits : next.exited = true → s.terminate = true ∧ s.queueSize = 0) :
    Closing (s.setWorker i next) where
  flag := closing.flag
  woken := by
    intro flag other member
    rcases List.mem_or_eq_of_mem_set member with old | rfl
    · exact closing.woken flag other old
    · cases waits : State.isWait other with
      | false => rfl
      | true => exact absurd (flag.symm.trans (blocks waits)) (by decide)
  drained := by
    intro other member exited
    rcases List.mem_or_eq_of_mem_set member with old | rfl
    · exact closing.drained other old exited
    · exact exits exited
  joined := by
    intro k main j less
    have done := closing.joined k main j less
    have apart : i ≠ j := by
      rintro rfl
      exact moves (Option.some.inj (found.symm.trans done))
    simp only [State.setWorker, Counting.getElem?_set_of_get found, if_neg apart, done]
  all := by
    intro main
    exact absurd (closing.all main pc (List.mem_of_getElem? found)) moves

/-- Main goes on to a program counter on the same side of the flag. -/
theorem setMain {pc : MainPc} (closing : Closing s) (side : pc.closing = s.main.closing)
    (joined : ∀ i, pc = .join i → ∀ j, j < i → s.workers[j]? = some .done)
    (all : pc = .destroyed → ∀ pc ∈ s.workers, pc = .done) : Closing (s.setMain pc) where
  flag := by
    rw [show (s.setMain pc).main = pc from rfl, side]
    exact closing.flag
  woken := closing.woken
  drained := closing.drained
  joined := joined
  all := all

theorem signal (closing : Closing s) (signalled : s.signal woken = some t) : Closing t := by
  rcases State.signal_cases signalled with ⟨_, _, rfl⟩ | ⟨_, waiting, rfl⟩ | ⟨j, _, blocked, rfl⟩
  · exact closing
  · refine closing.setMain ?_ (fun i same => ?_) fun same => ?_
    · rw [waiting]
      rfl
    · cases same
    · cases same
  · exact closing.setWorker blocked (by simp) (fun waits => by cases waits)
      fun exits => by cases exits

theorem init (numThreads : Nat) : Closing (tpoolInit numThreads) where
  flag := rfl
  woken flag := by cases flag
  drained := by
    intro pc member exited
    rw [List.eq_of_mem_replicate member] at exited
    cases exited
  joined i same := by cases same
  all same := by cases same

theorem mainStep (closing : Closing s) (stepped : MainStep n s woken s.main t) : Closing t := by
  generalize at_pc : s.main = pc at stepped
  cases stepped with
  | control lock move =>
      have same : Closing { s with lock := lock } := closing.of_same rfl rfl rfl fun _ empty => empty
      refine same.setMain ?_ ?_ ?_
      · change _ = s.main.closing
        rw [at_pc]
        cases move with
        | requestUnlock | enqueueUnlock =>
            unfold State.enqueueLoop
            split <;> rfl
        | _ => rfl
      · rintro i rfl j less
        generalize next : MainPc.join i = target at move
        cases move with
        | requestUnlock | enqueueUnlock =>
            unfold State.enqueueLoop at next
            split at next <;> cases next
        | destroyUnlock =>
            cases next
            omega
        | @join k exited =>
            cases next
            by_cases last : j = k
            · rw [last]
              exact exited
            · exact closing.joined k at_pc j (by omega)
        | _ => cases next
      · rintro rfl other member
        generalize next : MainPc.destroyed = target at move
        cases move with
        | requestUnlock | enqueueUnlock =>
            unfold State.enqueueLoop at next
            split at next <;> cases next
        | @destroyed k length =>
            obtain ⟨j, bound, same⟩ := List.getElem_of_mem member
            have bound : j < s.workers.length := bound
            have done := closing.joined k at_pc j (by omega)
            rw [List.getElem?_eq_getElem bound] at done
            exact same.symm.trans (Option.some.inj done)
        | _ => cases next
  | @add job =>
      have same : Closing { s with totalWorks := s.totalWorks + job.numWorks } :=
        closing.of_same rfl rfl rfl fun _ empty => empty
      refine same.setMain ?_ (fun i same => ?_) fun same => ?_
      · change false = s.main.closing
        rw [at_pc]
        rfl
      · cases same
      · cases same
  | @put job i start signalledState signalled =>
      -- The flag is not set before `tpool_destroy`, so nobody has left while main enqueues.
      have running : s.terminate = false := by
        rw [closing.flag, at_pc]
        rfl
      have queued : Closing (s.putWork (s.newWork n job i start)) :=
        closing.of_same rfl rfl rfl fun flag => absurd (running.symm.trans flag) (by decide)
      refine (queued.signal signalled).setMain ?_ (fun i same => ?_) fun same => ?_
      · rcases signal_main signalled with unmoved | ⟨waiting, _⟩
        · rw [unmoved, show (s.putWork (s.newWork n job i start)).main = s.main from rfl, at_pc]
          rfl
        · have main : s.main = .syncWait := waiting
          rw [at_pc] at main
          cases main
      · cases same
      · cases same
  | terminate =>
      refine ⟨rfl, fun _ other member => ?_, fun other member exited => ?_,
        fun i same => ?_, fun same => ?_⟩
      · obtain ⟨before, _, rfl⟩ := List.mem_map.mp member
        cases before <;> rfl
      · exfalso
        obtain ⟨before, old, same⟩ := List.mem_map.mp member
        have left : before.exited = true := by
          rw [← same] at exited
          cases before with
          | wait => cases exited
          | _ => exact exited
        have flag := (closing.drained before old left).1
        rw [closing.flag, at_pc] at flag
        cases flag
      · cases same
      · cases same

theorem workerStep (closing : Closing s) (found : s.workers[i]? = some pc)
    (stepped : WorkerStep s i woken pc t) : Closing t := by
  have member := List.mem_of_getElem? found
  cases stepped with
  | control lock move =>
      have same : Closing { s with lock := lock } := closing.of_same rfl rfl rfl fun _ empty => empty
      refine same.setWorker found ?_ ?_ ?_
      · rintro rfl
        cases move
      · intro waits
        cases move with
        | block _ running => exact running
        | _ => cases waits
      · intro exits
        cases move with
        | leave empty flag => exact ⟨flag, empty⟩
        | exit => exact closing.drained _ member rfl
        | _ => cases exits
  | @take work nonempty slot =>
      have taken : Closing (s.takeWork work) :=
        closing.of_same rfl rfl rfl fun _ empty => absurd empty nonempty
      exact taken.setWorker found (by simp) (fun waits => by cases waits)
        fun exits => by cases exits
  | @cell work k inside =>
      have written : Closing (s.writeCell work.c (k / work.n) (k % work.n)
          (calculation work.n (work.a (k / work.n)) (work.b (k % work.n)))) :=
        closing.of_same rfl rfl rfl fun _ empty => empty
      exact written.setWorker found (by simp) (fun waits => by cases waits)
        fun exits => by cases exits
  | countLast last signalled =>
      have counted : Closing { s with completed := s.completed + 1 } :=
        closing.of_same rfl rfl rfl fun _ empty => empty
      exact (counted.signal signalled).setWorker (signal_worker signalled found rfl) (by simp)
        (fun waits => by cases waits) fun exits => by cases exits
  | countMore more =>
      have counted : Closing { s with completed := s.completed + 1 } :=
        closing.of_same rfl rfl rfl fun _ empty => empty
      exact counted.setWorker found (by simp) (fun waits => by cases waits)
        fun exits => by cases exits

theorem enter (closing : Closing s) (ready : s.main = .ready) (entered : CallStep n s t) :
    Closing t := by
  have side : s.main.closing = false := by
    rw [ready]
    rfl
  cases entered with
  | @request a b numWorks positive =>
      have same : Closing { s with requests := s.requests ++ [{ a, b, numWorks }] } :=
        closing.of_same rfl rfl rfl fun _ empty => empty
      exact same.setMain side.symm (fun i same => by cases same) fun same => by cases same
  | synchronize | destroy =>
      exact closing.setMain side.symm (fun i same => by cases same) fun same => by cases same

end Closing

variable {numThreads n : Nat}

theorem reach_closing {guard : State → Action → Prop} {s : State}
    (reached : (machine numThreads n).Reach guard s) : Closing s := by
  refine reached.invariant _ ?_ ?_
  · rintro _ rfl
    exact .init numThreads
  · intro s action t _ closing _ stepped
    rcases State.step_cases stepped with ⟨call, _, ready, entered⟩ | ⟨woken, _, statement⟩ |
      ⟨i, woken, pc, _, found, statement⟩
    · exact closing.enter ready entered
    · exact closing.mainStep statement
    · exact closing.workerStep found statement

/-- No wakeup of a worker is lost, with the mutex free or not: an item in the queue has a
worker that is not blocked, and the flag of `tpool_destroy` leaves none blocked. -/
theorem workers_not_stuck (someWorker : 0 < numThreads) {s : State}
    (reached : (machine numThreads n).Reach Machine.anyStep s) :
    (0 < s.queueSize → Awake s) ∧
      (s.terminate = true → ∀ pc ∈ s.workers, State.isWait pc = false) :=
  ⟨reach_awake someWorker reached, (reach_closing reached).woken⟩

/-- Both workers are blocked when the first of two items is enqueued: the signal wakes
worker 1, which takes the mutex back while worker 0 stays blocked. -/
theorem workers_not_stuck_queued :
    ∃ s, (machine 2 1).Reach Machine.anyStep s ∧ s.queueSize = 1 ∧ s.workerWaits 0 = true ∧
      Awake s := by
  have ran : ((machine 2 1).exec (fun _ _ => true) (tpoolInit 2)
      [.worker 0 none, .worker 0 none, .worker 1 none, .worker 1 none,
        .call (.request (fun _ _ => 2) (fun _ _ => 3) 2), .main none, .main none, .main none,
        .main none, .main (some (.worker 1)), .main none, .worker 1 none]).map
          (fun s => (s.queueSize, s.workerWaits 0)) = some (1, true) := by
    decide +kernel
  obtain ⟨s, runs, result⟩ := Option.map_eq_some_iff.mp ran
  simp only [Prod.mk.injEq] at result
  have reached : (machine 2 1).Reach Machine.anyStep s :=
    (Machine.Reach.initial rfl).exec (fun _ _ _ => trivial) runs
  exact ⟨s, reached, result.1, result.2,
    (workers_not_stuck (by decide) reached).1 (by rw [result.1]; decide)⟩

/-! ## After the last join -/

/-- `tpool_destroy` is behind its last `pthread_join`. -/
def State.joinedAll (s : State) : Prop := s.main = .join s.workers.length ∨ s.main = .destroyed

theorem Closing.done_of_joinedAll {s : State} (closing : Closing s) (joined : s.joinedAll) :
    ∀ pc ∈ s.workers, pc = .done := by
  rcases joined with last | destroyed
  · intro pc member
    obtain ⟨j, bound, same⟩ := List.getElem_of_mem member
    have done := closing.joined _ last j bound
    rw [List.getElem?_eq_getElem bound] at done
    exact same.symm.trans (Option.some.inj done)
  · exact closing.all destroyed

/-- The last join finds the queue empty and every requested work completed. -/
theorem drained_of_joinedAll {guard : State → Action → Prop} (someWorker : 0 < numThreads)
    {s : State} (reached : (machine numThreads n).Reach guard s) (joined : s.joinedAll) :
    s.queueSize = 0 ∧ s.completed = s.totalWorks := by
  have closing := reach_closing reached
  have done := closing.done_of_joinedAll joined
  have length := reach_workers_length reached
  obtain ⟨pc, rest, workers⟩ := List.exists_cons_of_length_pos (length ▸ someWorker)
  have member : pc ∈ s.workers := by simp [workers]
  have empty : s.queueSize = 0 := (closing.drained pc member (by rw [done pc member]; rfl)).2
  have idle : s.inFlight = 0 :=
    List.countP_eq_zero.mpr fun pc member => by simp [done pc member, WorkerPc.inFlight]
  have queued : s.main.unqueued = 0 := by
    rcases joined with last | destroyed
    · rw [last]
      rfl
    · rw [destroyed]
      rfl
  have balanced := reach_balanced reached
  unfold Balanced at balanced
  exact ⟨empty, by omega⟩

end NTUSP.Pool
