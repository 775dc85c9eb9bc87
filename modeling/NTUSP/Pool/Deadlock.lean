import NTUSP.Pool.Accounting

/-!
# Main and the workers on one condition variable

Workers wait for items and `tpool_synchronize` waits for an empty queue on the same
condition variable, and the last `completed++` signals it once. Enqueues never lose
a wakeup, so main and all workers block together only after that one signal went to
an idle worker.
-/

namespace NTUSP.Pool

open NTUSP.Library

/-- Main is blocked in `tpool_synchronize`, every worker in its own wait, and nobody
has been woken. -/
def Deadlocked (s : State) : Prop :=
  s.main = .syncWait ∧ ∀ pc ∈ s.workers, pc = .wait

/-- The guard of the runs in which the signal of the last `completed++` reaches main
whenever main is blocked in `tpool_synchronize`. -/
def wakesMain (s : State) (action : Action) : Prop :=
  ∀ i woken, action = .worker i woken → s.workers[i]? = some .count →
    s.totalWorks ≤ s.completed + 1 → s.main = .syncWait → woken = some .main

/-- Some worker is not blocked. -/
def Awake (s : State) : Prop := ∃ pc ∈ s.workers, State.isWait pc = false

section Awake

variable {n : Nat} {s t : State} {woken : Option Thread}

theorem awake_of_get {i : Nat} {pc : WorkerPc} (found : s.workers[i]? = some pc)
    (awake : State.isWait pc = false) : Awake s :=
  ⟨pc, List.mem_of_getElem? found, awake⟩

/-- A worker that moves on to a program counter outside the wait is awake. -/
theorem awake_setWorker {i : Nat} {pc next : WorkerPc} (found : s.workers[i]? = some pc)
    (awake : State.isWait next = false) : Awake (s.setWorker i next) := by
  apply awake_of_get (i := i) _ awake
  simp only [State.setWorker, Counting.getElem?_set_of_get found, if_true]

/-- Main's signal leaves some worker awake: the one it woke, or every worker when
none was blocked. -/
theorem awake_signal (nonempty : s.workers ≠ []) (notMain : s.main ≠ .syncWait)
    (signalled : s.signal woken = some t) : Awake t := by
  rcases State.signal_cases signalled with ⟨_, nobody, rfl⟩ | ⟨_, waiting, _⟩ |
    ⟨j, _, blocked, rfl⟩
  · obtain ⟨pc, rest, workers⟩ := List.exists_cons_of_ne_nil nonempty
    have member : pc ∈ t.workers := by simp [workers]
    refine ⟨pc, member, ?_⟩
    simp only [State.nobodyWaits, Bool.and_eq_true, Bool.not_eq_true', List.any_eq_false] at nobody
    simpa using nobody.2 pc member
  · exact absurd waiting notMain
  · exact awake_setWorker blocked rfl

theorem awake_broadcast (nonempty : s.workers ≠ []) : Awake s.broadcast := by
  obtain ⟨pc, rest, workers⟩ := List.exists_cons_of_ne_nil nonempty
  refine ⟨if State.isWait pc then .wake else pc, by simp [State.broadcast, workers], ?_⟩
  cases pc <;> rfl

/-- A move of a worker blocks it only on an empty queue. -/
theorem WorkerMove.awake {pc next : WorkerPc} (move : WorkerMove s pc next)
    (queued : 0 < s.queueSize) : State.isWait next = false := by
  cases move with
  | block empty => omega
  | _ => rfl

end Awake

variable {numThreads n : Nat}

/-- The pool keeps its workers. -/
theorem step_workers_length {s t : State} {action : Action} (stepped : s.step n action = some t) :
    t.workers.length = s.workers.length := by
  have signal : ∀ {s t : State} {woken : Option Thread}, s.signal woken = some t →
      t.workers.length = s.workers.length := by
    intro s t woken signalled
    have all := signal_countP signalled (fun _ => true) rfl
    simpa using all
  rcases State.step_cases stepped with ⟨call, _, ready, entered⟩ | ⟨woken, _, statement⟩ |
    ⟨i, woken, pc, _, found, statement⟩
  · cases entered <;> rfl
  · generalize s.main = pc at statement
    cases statement with
    | control | add => rfl
    | put signalled =>
        have same := signal signalled
        exact same
    | terminate => simp [State.setMain, State.broadcast]
  · cases statement with
    | control | take | cell | countMore => simp [State.setWorker, State.takeWork, State.writeCell]
    | countLast last signalled =>
        have same := signal signalled
        simpa [State.setWorker] using same

theorem reach_workers_length {guard : State → Action → Prop} {s : State}
    (reached : (machine numThreads n).Reach guard s) : s.workers.length = numThreads := by
  refine reached.invariant (fun s => s.workers.length = numThreads) ?_ ?_
  · rintro _ rfl
    simp [tpoolInit]
  · intro s action t _ length _ stepped
    rw [step_workers_length stepped, length]

/-- No wakeup for an item is lost: while the queue is not empty, some worker is awake. -/
theorem reach_awake {guard : State → Action → Prop} (someWorker : 0 < numThreads) {s : State}
    (reached : (machine numThreads n).Reach guard s) : 0 < s.queueSize → Awake s := by
  refine reached.invariant (fun s => 0 < s.queueSize → Awake s) ?_ ?_
  · rintro _ rfl queued
    cases queued
  · intro s action t prior awake _ stepped queued
    have nonempty : s.workers ≠ [] := by
      have length := reach_workers_length prior
      intro none
      rw [none, List.length_nil] at length
      omega
    rcases State.step_cases stepped with ⟨call, _, ready, entered⟩ | ⟨woken, _, statement⟩ |
      ⟨i, woken, pc, _, found, statement⟩
    · cases entered <;> exact awake queued
    · generalize at_pc : s.main = pc at statement
      cases statement with
      | control | add => exact awake queued
      | @put job i start _ signalled =>
          have notMain : (s.putWork (s.newWork n job i start)).main ≠ .syncWait := by
            show s.main ≠ .syncWait
            rw [at_pc]
            exact MainPc.noConfusion
          have woke := awake_signal (s := s.putWork (s.newWork n job i start)) nonempty notMain
            signalled
          exact woke
      | terminate => exact awake_broadcast (s := { s with terminate := true }) nonempty
    · cases statement with
      | control lock move =>
          exact awake_setWorker (s := { s with lock := lock }) found (move.awake queued)
      | take | cell | countMore => exact awake_setWorker found rfl
      | countLast last signalled => exact awake_setWorker (signal_worker signalled found rfl) rfl

/-- While main is blocked and the completion signals reach it, works are outstanding. -/
theorem reach_outstanding {s : State} (reached : (machine numThreads n).Reach wakesMain s) :
    s.main = .syncWait → s.completed < s.totalWorks := by
  refine reached.invariant (fun s => s.main = .syncWait → s.completed < s.totalWorks) ?_ ?_
  · rintro _ rfl at_pc
    cases at_pc
  · intro s action t prior outstanding allowed stepped at_pc
    have balanced := reach_balanced prior
    unfold Balanced at balanced
    rcases State.step_cases stepped with ⟨call, _, ready, entered⟩ | ⟨woken, _, statement⟩ |
      ⟨i, woken, pc, isWorker, found, statement⟩
    · cases entered <;> cases at_pc
    · generalize before : s.main = pc at statement
      cases statement with
      | control lock move =>
          cases move with
          | block queued =>
              simp only [State.setMain]
              omega
          | requestUnlock | enqueueUnlock =>
              simp only [State.setMain, State.enqueueLoop] at at_pc
              split at at_pc <;> cases at_pc
          | _ => cases at_pc
      | _ => cases at_pc
    · cases statement with
      | control | take | cell => exact outstanding at_pc
      | countMore more => exact more
      | countLast last signalled =>
          exfalso
          rcases State.signal_cases signalled with ⟨none, _, rfl⟩ | ⟨_, waiting, rfl⟩ |
            ⟨j, worker, _, rfl⟩
          · have reachedMain := allowed i woken isWorker found last at_pc
            rw [none] at reachedMain
            cases reachedMain
          · cases at_pc
          · have reachedMain := allowed i woken isWorker found last at_pc
            rw [worker] at reachedMain
            cases reachedMain

/-- Main is blocked and nothing is left that could signal it. -/
structure Stranded (s : State) : Prop where
  blocked : s.main = .syncWait
  drained : s.queueSize = 0
  idle : s.inFlight = 0

/-- No step of a stranded state wakes main. -/
theorem Stranded.step {s t : State} {action : Action} (stranded : Stranded s)
    (stepped : s.step n action = some t) : Stranded t := by
  obtain ⟨blocked, drained, idle⟩ := stranded
  rcases State.step_cases stepped with ⟨call, _, ready, _⟩ | ⟨woken, _, statement⟩ |
    ⟨i, woken, pc, _, found, statement⟩
  · rw [blocked] at ready
    cases ready
  · rw [blocked] at statement
    cases statement with
    | control lock move => cases move
  · have notHeld : pc.inFlight = false := by
      cases held : pc.inFlight with
      | false => rfl
      | true =>
          have counted := Counting.countP_pos_of_get _ found held
          simp only [State.inFlight] at idle
          omega
    cases statement with
    | control lock move =>
        have same : _ = s.workers.countP WorkerPc.inFlight :=
          Counting.countP_set_same WorkerPc.inFlight found move.inFlight_eq
        exact ⟨blocked, drained, same.trans idle⟩
    | take nonempty slot => exact absurd drained nonempty
    | cell | countLast | countMore => cases notHeld

/-- A completion signal that misses the blocked main strands it. -/
theorem strands_of_missed {guard : State → Action → Prop} {s t : State} {action : Action}
    (reached : (machine numThreads n).Reach guard s) (stepped : s.step n action = some t)
    (missed : ¬ wakesMain s action) : Stranded t := by
  have balanced := reach_balanced reached
  unfold Balanced at balanced
  unfold wakesMain at missed
  push Not at missed
  obtain ⟨i, woken, rfl, found, last, blocked, notMain⟩ := missed
  have held := Counting.countP_pos_of_get WorkerPc.inFlight found rfl
  simp only [blocked, MainPc.unqueued, State.inFlight] at balanced
  simp only [State.step, found] at stepped
  cases State.stepWorker_cases stepped with
  | control lock move => cases move
  | countMore more => omega
  | @countLast signalledState _ signalled =>
      have frame := signal_frame signalled
      have queueSize := congrArg State.queueSize frame
      have same := signal_countP signalled WorkerPc.inFlight rfl
      have dropped := Counting.countP_set_add WorkerPc.inFlight
        (signal_worker signalled found rfl) .release
      simp only [WorkerPc.inFlight, Bool.toNat_false, Bool.toNat_true] at dropped
      refine ⟨?_, ?_, ?_⟩
      · rcases State.signal_cases signalled with ⟨_, _, rfl⟩ | ⟨toMain, _, _⟩ | ⟨j, _, _, rfl⟩
        · exact blocked
        · exact absurd toMain notMain
        · exact blocked
      · simp only [State.setWorker] at queueSize ⊢
        omega
      · simp only [State.inFlight, State.setWorker] at same dropped ⊢
        omega

/-- Main and all workers block together in no run whose last completion signals reach a
blocked main; and after a step that breaks this rule main never leaves its wait. -/
theorem not_deadlocked_of_wakesMain (someWorker : 0 < numThreads) {s : State}
    (reached : (machine numThreads n).Reach wakesMain s) :
    ¬ Deadlocked s ∧
      ∀ action t, s.step n action = some t → ¬ wakesMain s action → ∀ later,
        Library.Machine.Reach { Initial := (· = t), step := fun s action => s.step n action }
          Library.Machine.anyStep later → later.main = .syncWait := by
  constructor
  · rintro ⟨blocked, waiting⟩
    have outstanding := reach_outstanding reached blocked
    have balanced := reach_balanced reached
    unfold Balanced at balanced
    have idle : s.inFlight = 0 :=
      List.countP_eq_zero.mpr fun pc member => by simp [waiting pc member, WorkerPc.inFlight]
    rw [blocked, idle] at balanced
    simp only [MainPc.unqueued] at balanced
    obtain ⟨pc, member, awake⟩ := reach_awake someWorker reached (by omega)
    rw [waiting pc member] at awake
    cases awake
  · intro action t stepped missed later after
    have stranded : Stranded later := by
      refine after.invariant _ ?_ ?_
      · rintro _ rfl
        exact strands_of_missed reached stepped missed
      · intro s action t _ stranded _ stepped
        exact stranded.step stepped
    exact stranded.blocked

/-- Whether the last completion signal of the action misses a blocked main. -/
def missesMain (s : State) (action : Action) : Bool :=
  match action with
  | .worker i woken =>
      match s.workers[i]? with
      | some .count => decide (s.totalWorks ≤ s.completed + 1) && s.mainWaits &&
          decide (woken ≠ some .main)
      | _ => false
  | _ => false

theorem wakesMain_of_check {s : State} {action : Action} (check : missesMain s action = false) :
    wakesMain s action := by
  rintro i woken rfl found last blocked
  by_contra notMain
  simp [missesMain, found, last, State.mainWaits, blocked, notMain] at check

/-- Two workers, one work; main blocks before worker 0 takes the item and worker 1, woken
by the enqueue, finds the queue empty. -/
def blockedMain : List Action :=
  [.worker 1 none, .worker 1 none, .call (.request (fun _ _ => 2) (fun _ _ => 3) 1),
    .main none, .main none, .main none, .main none, .main (some (.worker 1)), .main none,
    .call .synchronize, .main none, .main none,
    .worker 0 none, .worker 0 none, .worker 0 none, .worker 0 none, .worker 0 none,
    .worker 1 none, .worker 1 none, .worker 0 none]

/-- The signal of `completed++` goes to main, which is not blocked afterwards. -/
theorem not_deadlocked_main_woken :
    ∃ s, (machine 2 1).Reach wakesMain s ∧ s.mainWaits = false ∧ s.completed = 1 ∧
      ¬ Deadlocked s := by
  have ran : ((machine 2 1).exec (fun s action => !missesMain s action) (tpoolInit 2)
      (blockedMain ++ [.worker 0 (some .main)])).map (fun s => (s.mainWaits, s.completed)) =
        some (false, 1) := by decide +kernel
  obtain ⟨s, runs, result⟩ := Option.map_eq_some_iff.mp ran
  simp only [Prod.mk.injEq] at result
  have reached : (machine 2 1).Reach wakesMain s :=
    (Library.Machine.Reach.initial rfl).exec
      (fun s action passed => wakesMain_of_check (by simpa using passed)) runs
  exact ⟨s, reached, result.1, result.2, (not_deadlocked_of_wakesMain (by decide) reached).1⟩

/-- The signal of `completed++` goes to worker 1, which waits again, and so does worker 0:
main and both workers are blocked. -/
theorem deadlock_reachable :
    ∃ s, (machine 2 1).Reach keepsRoom s ∧ Deadlocked s := by
  have ran : ((machine 2 1).exec (fun s action => !s.overruns action) (tpoolInit 2)
      (blockedMain ++ [.worker 0 (some (.worker 1)), .worker 0 none, .worker 0 none,
        .worker 0 none, .worker 1 none, .worker 1 none])).map
          (fun s => (s.mainWaits, s.workers.all State.isWait)) = some (true, true) := by
    decide +kernel
  obtain ⟨s, runs, result⟩ := Option.map_eq_some_iff.mp ran
  simp only [Prod.mk.injEq, List.all_eq_true] at result
  refine ⟨s, reach_of_exec runs, ?_, ?_⟩
  · have waits := result.1
    simp only [State.mainWaits] at waits
    split at waits
    · assumption
    · cases waits
  · intro pc member
    have waits := result.2 pc member
    cases pc with
    | wait => rfl
    | _ => cases waits

end NTUSP.Pool
