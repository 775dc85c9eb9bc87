import NTUSP.Library.Counting
import NTUSP.Pool.Model

/-!
# What one step of the pool can do

`WorkerStep`, `MainStep` and `CallStep` list the statements of `tpool.c` with their guards
and effects; those that touch only the mutex and a program counter are the moves.
`step_cases` derives the lists from the step function once, and every invariant of
the pool is a case analysis over them.
-/

namespace NTUSP.Pool

open NTUSP.Library

/-- Moves of a worker's program counter that touch nothing but the mutex. -/
inductive WorkerMove (s : State) : WorkerPc → WorkerPc → Prop where
  | lock (free : s.lock = none) : WorkerMove s .lock .test
  | block (empty : s.queueSize = 0) (running : s.terminate = false) : WorkerMove s .test .wait
  | leave (empty : s.queueSize = 0) (terminated : s.terminate = true) : WorkerMove s .test .leave
  | relockWait (free : s.lock = none) : WorkerMove s .wake .test
  | exit : WorkerMove s .leave .done
  | unlock {work : Work} : WorkerMove s (.unlock work) (.compute work work.start)
  | finish {work : Work} {k : Nat} (outside : work.end_ ≤ k) :
      WorkerMove s (.compute work k) .relock
  | relock (free : s.lock = none) : WorkerMove s .relock .count
  | release : WorkerMove s .release .lock

/-- The statements of `worker_thread`, for worker `i` at a program counter. -/
inductive WorkerStep (s : State) (i : Nat) (woken : Option Thread) : WorkerPc → State → Prop where
  | control {pc next : WorkerPc} (lock : Option Thread) (move : WorkerMove s pc next) :
      WorkerStep s i woken pc (({ s with lock := lock }).setWorker i next)
  | take {work : Work} (nonempty : s.queueSize ≠ 0)
      (slot : s.workQueue[s.front]? = some (some work)) :
      WorkerStep s i woken .test ((s.takeWork work).setWorker i (.unlock work))
  | cell {work : Work} {k : Nat} (inside : k < work.end_) :
      WorkerStep s i woken (.compute work k)
        ((s.writeCell work.c (k / work.n) (k % work.n)
          (calculation work.n (work.a (k / work.n)) (work.b (k % work.n)))).setWorker i
            (.compute work (k + 1)))
  | countLast {t : State} (last : s.totalWorks ≤ s.completed + 1)
      (signalled : ({ s with completed := s.completed + 1 }).signal woken = some t) :
      WorkerStep s i woken .count (t.setWorker i .release)
  | countMore (more : s.completed + 1 < s.totalWorks) :
      WorkerStep s i woken .count
        (({ s with completed := s.completed + 1 }).setWorker i .release)

/-- Moves of main's program counter that touch nothing but the mutex. -/
inductive MainMove (s : State) : MainPc → MainPc → Prop where
  | requestLock {job : Job} (free : s.lock = none) :
      MainMove s (.requestLock job) (.requestAdd job)
  | requestUnlock {job : Job} : MainMove s (.requestUnlock job) (State.enqueueLoop job 0 0)
  | enqueueLock {job : Job} {i start : Nat} (free : s.lock = none) :
      MainMove s (.enqueueLock job i start) (.enqueue job i start)
  | enqueueUnlock {job : Job} {i end_ : Nat} :
      MainMove s (.enqueueUnlock job i end_) (State.enqueueLoop job (i + 1) end_)
  | syncLock (free : s.lock = none) : MainMove s .syncLock .syncTest
  | block (nonempty : 0 < s.queueSize) : MainMove s .syncTest .syncWait
  | pass (empty : s.queueSize = 0) : MainMove s .syncTest .syncUnlock
  | syncWake (free : s.lock = none) : MainMove s .syncWake .syncTest
  | synchronized : MainMove s .syncUnlock .ready
  | destroyLock (free : s.lock = none) : MainMove s .destroyLock .destroySet
  | destroyUnlock : MainMove s .destroyUnlock (.join 0)
  | join {i : Nat} (exited : s.workers[i]? = some .done) : MainMove s (.join i) (.join (i + 1))
  | destroyed {i : Nat} (all : s.workers.length ≤ i) : MainMove s (.join i) .destroyed

/-- The statements of main inside the calls of the pool. -/
inductive MainStep (n : Nat) (s : State) (woken : Option Thread) : MainPc → State → Prop where
  | control {pc next : MainPc} (lock : Option Thread) (move : MainMove s pc next) :
      MainStep n s woken pc (({ s with lock := lock }).setMain next)
  | add {job : Job} :
      MainStep n s woken (.requestAdd job)
        (({ s with totalWorks := s.totalWorks + job.numWorks }).setMain (.requestUnlock job))
  | put {job : Job} {i start : Nat} {t : State}
      (signalled : (s.putWork (s.newWork n job i start)).signal woken = some t) :
      MainStep n s woken (.enqueue job i start)
        (t.setMain (.enqueueUnlock job i (rangeEnd job.workSize job.remainder start i)))
  | terminate :
      MainStep n s woken .destroySet
        (({ s with terminate := true }).broadcast.setMain .destroyUnlock)

/-- The calls main enters. -/
inductive CallStep (n : Nat) (s : State) : State → Prop where
  | request {a b : Matrix} {numWorks : Nat} (positive : 0 < numWorks) :
      CallStep n s { s with
        requests := s.requests ++ [{ a, b, numWorks }]
        main := .requestLock {
          a, transposeB := transposeB b, c := s.requests.length, numWorks
          workSize := n * n / numWorks, remainder := n * n % numWorks } }
  | synchronize : CallStep n s (s.setMain .syncLock)
  | destroy : CallStep n s (s.setMain .destroyLock)

namespace State

variable {n : Nat} {s t : State} {i : Nat} {pc : WorkerPc} {woken : Option Thread}

theorem acquire_eq_some {thread : Thread} (got : s.acquire thread = some t) :
    s.lock = none ∧ t = { s with lock := some thread } := by
  unfold acquire at got
  split at got
  · rename_i free
    exact ⟨free, (Option.some.inj got).symm⟩
  · cases got

/-- A signal wakes nobody, main, or one blocked worker. -/
theorem signal_cases (signalled : s.signal woken = some t) :
    (woken = none ∧ s.nobodyWaits = true ∧ t = s) ∨
    (woken = some .main ∧ s.main = .syncWait ∧ t = s.setMain .syncWake) ∨
    (∃ j, woken = some (.worker j) ∧ s.workers[j]? = some .wait ∧ t = s.setWorker j .wake) := by
  unfold signal at signalled
  split at signalled
  · split at signalled
    · rename_i nobody
      exact .inl ⟨rfl, nobody, (Option.some.inj signalled).symm⟩
    · cases signalled
  · rename_i thread
    split at signalled
    · rename_i waiting
      cases thread with
      | main =>
          refine .inr (.inl ⟨rfl, ?_, (Option.some.inj signalled).symm⟩)
          simp only [waits, mainWaits] at waiting
          split at waiting
          · assumption
          · cases waiting
      | worker j =>
          refine .inr (.inr ⟨j, rfl, ?_, (Option.some.inj signalled).symm⟩)
          simp only [waits, workerWaits] at waiting
          split at waiting
          · assumption
          · cases waiting
    · cases signalled

/-- Every step of a worker is one of the listed statements. -/
theorem stepWorker_cases (stepped : s.stepWorker i pc woken = some t) :
    WorkerStep s i woken pc t := by
  cases pc with
  | lock =>
      obtain ⟨got, acquired, rfl⟩ := Option.map_eq_some_iff.mp stepped
      obtain ⟨free, rfl⟩ := acquire_eq_some acquired
      exact .control _ (.lock free)
  | test =>
      simp only [stepWorker] at stepped
      split at stepped
      · rename_i blocked
        cases stepped
        exact .control _ (.block blocked.1 blocked.2)
      · rename_i passed
        split at stepped
        · rename_i left
          cases stepped
          exact .control _ (.leave left.2 left.1)
        · rename_i stays
          have nonempty : s.queueSize ≠ 0 := by
            intro empty
            cases terminated : s.terminate with
            | false => exact passed ⟨empty, terminated⟩
            | true => exact stays ⟨terminated, empty⟩
          split at stepped
          · rename_i work slot
            cases stepped
            exact .take nonempty slot
          · cases stepped
  | wait => cases stepped
  | wake =>
      obtain ⟨got, acquired, rfl⟩ := Option.map_eq_some_iff.mp stepped
      obtain ⟨free, rfl⟩ := acquire_eq_some acquired
      exact .control _ (.relockWait free)
  | leave =>
      cases stepped
      exact .control _ .exit
  | unlock work =>
      cases stepped
      exact .control _ .unlock
  | compute work k =>
      simp only [stepWorker] at stepped
      split at stepped
      · rename_i inside
        cases stepped
        exact .cell inside
      · rename_i outside
        cases stepped
        exact .control _ (.finish (Nat.le_of_not_lt outside))
  | relock =>
      obtain ⟨got, acquired, rfl⟩ := Option.map_eq_some_iff.mp stepped
      obtain ⟨free, rfl⟩ := acquire_eq_some acquired
      exact .control _ (.relock free)
  | count =>
      simp only [stepWorker] at stepped
      split at stepped
      · rename_i last
        obtain ⟨signalled, signal, rfl⟩ := Option.map_eq_some_iff.mp stepped
        exact .countLast last signal
      · rename_i more
        cases stepped
        exact .countMore (Nat.lt_of_not_le more)
  | release =>
      cases stepped
      exact .control _ .release
  | done => cases stepped

/-- Every step of main inside a call is one of the listed statements. -/
theorem stepMain_cases (stepped : s.stepMain n woken = some t) :
    MainStep n s woken s.main t := by
  unfold stepMain at stepped
  split at stepped <;> rename_i pc <;> rw [pc]
  case h_1 => cases stepped
  case h_2 =>
      obtain ⟨got, acquired, rfl⟩ := Option.map_eq_some_iff.mp stepped
      obtain ⟨free, rfl⟩ := acquire_eq_some acquired
      exact .control _ (.requestLock free)
  case h_3 =>
      cases stepped
      exact .add
  case h_4 =>
      cases stepped
      exact .control _ .requestUnlock
  case h_5 =>
      obtain ⟨got, acquired, rfl⟩ := Option.map_eq_some_iff.mp stepped
      obtain ⟨free, rfl⟩ := acquire_eq_some acquired
      exact .control _ (.enqueueLock free)
  case h_6 =>
      obtain ⟨signalled, signal, rfl⟩ := Option.map_eq_some_iff.mp stepped
      exact .put signal
  case h_7 =>
      cases stepped
      exact .control _ .enqueueUnlock
  case h_8 =>
      obtain ⟨got, acquired, rfl⟩ := Option.map_eq_some_iff.mp stepped
      obtain ⟨free, rfl⟩ := acquire_eq_some acquired
      exact .control _ (.syncLock free)
  case h_9 =>
      split at stepped
      · rename_i nonempty
        cases stepped
        exact .control _ (.block nonempty)
      · rename_i empty
        cases stepped
        exact .control _ (.pass (Nat.eq_zero_of_not_pos empty))
  case h_10 => cases stepped
  case h_11 =>
      obtain ⟨got, acquired, rfl⟩ := Option.map_eq_some_iff.mp stepped
      obtain ⟨free, rfl⟩ := acquire_eq_some acquired
      exact .control _ (.syncWake free)
  case h_12 =>
      cases stepped
      exact .control _ .synchronized
  case h_13 =>
      obtain ⟨got, acquired, rfl⟩ := Option.map_eq_some_iff.mp stepped
      obtain ⟨free, rfl⟩ := acquire_eq_some acquired
      exact .control _ (.destroyLock free)
  case h_14 =>
      cases stepped
      exact .terminate
  case h_15 =>
      cases stepped
      exact .control _ .destroyUnlock
  case h_16 =>
      split at stepped
      · split at stepped
        · rename_i exited
          cases stepped
          exact .control _ (.join exited)
        · cases stepped
      · rename_i all
        cases stepped
        exact .control _ (.destroyed (Nat.le_of_not_lt all))
  case h_17 => cases stepped

theorem enter_cases {call : Call} (entered : s.enter n call = some t) : CallStep n s t := by
  cases call with
  | request a b numWorks =>
      simp only [enter] at entered
      split at entered
      · cases entered
      · rename_i positive
        cases entered
        exact .request (Nat.pos_of_ne_zero positive)
  | synchronize =>
      cases entered
      exact .synchronize
  | destroy =>
      cases entered
      exact .destroy

/-- A step is a call main enters, a statement of main or a statement of a worker. -/
theorem step_cases {action : Action} (stepped : s.step n action = some t) :
    (∃ call, action = .call call ∧ s.main = .ready ∧ CallStep n s t) ∨
    (∃ woken, action = .main woken ∧ MainStep n s woken s.main t) ∨
    (∃ i woken pc, action = .worker i woken ∧ s.workers[i]? = some pc ∧
      WorkerStep s i woken pc t) := by
  cases action with
  | call call =>
      simp only [step] at stepped
      split at stepped
      · rename_i ready
        exact .inl ⟨call, rfl, ready, enter_cases stepped⟩
      · cases stepped
  | main woken => exact .inr (.inl ⟨woken, rfl, stepMain_cases stepped⟩)
  | worker i woken =>
      simp only [step] at stepped
      split at stepped
      · rename_i pc found
        exact .inr (.inr ⟨i, woken, pc, rfl, found, stepWorker_cases stepped⟩)
      · cases stepped

end State
end NTUSP.Pool
