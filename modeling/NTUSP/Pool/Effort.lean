import NTUSP.Pool.Ownership
import NTUSP.Pool.Synchronize

/-!
# The steps a call still takes

A worker and main inside a call have a bounded number of statements before them, and an item in
the ring or still with main stands for the statements a worker spends on it. `State.effort` adds
them up, with the wakeups a statement may cause. Inside a call every step of any thread lowers
it, and some thread can step as long as main is not blocked for good.
-/

namespace NTUSP.Pool

open NTUSP.Library

/-- The statements before a worker, up to its next wait, at the latest. -/
def WorkerPc.effort : WorkerPc → Nat
  | .wait | .done => 0
  | .leave => 1
  | .test => 2
  | .lock | .wake => 3
  | .release => 4
  | .count => 8
  | .relock => 9
  | .compute work k => 10 + (work.end_ - k)
  | .unlock work => 11 + (work.end_ - work.start)

/-- The items of the current request that main has not put into the ring. -/
def MainPc.toEnqueue : MainPc → Nat
  | .requestLock job | .requestAdd job => job.numWorks
  | pc => pc.unqueued

/-- The statements before main, up to its next wait, the next turn of the loop in `tpool_request`
or the return of the call. -/
def MainPc.effort (numThreads : Nat) : MainPc → Nat
  | .ready | .syncWait | .destroyed => 0
  | .enqueue _ _ _ | .syncUnlock => 1
  | .enqueueLock _ _ _ | .syncTest => 2
  | .requestUnlock _ | .enqueueUnlock _ _ _ | .syncLock | .syncWake => 3
  | .requestAdd _ => 4
  | .requestLock _ => 5
  | .join i => numThreads - i + 1
  | .destroyUnlock => numThreads + 2
  | .destroySet => 4 * numThreads + 3
  | .destroyLock => 4 * numThreads + 4

/-- What a worker spends on an item at most, from its dequeue on. -/
def itemEffort (n : Nat) : Nat := n * n + 10

/-- The steps before the pool, as long as main enters no call. -/
def State.effort (n : Nat) (s : State) : Nat :=
  (s.workers.map WorkerPc.effort).sum + itemEffort n * s.queueSize +
    (itemEffort n + 6) * s.main.toEnqueue + s.main.effort s.workers.length

section Effort

variable {n i : Nat} {s t : State} {pc next : WorkerPc} {m m' : MainPc} {woken : Option Thread}

theorem effort_setWorker (n : Nat) (found : s.workers[i]? = some pc) (next : WorkerPc) :
    (s.setWorker i next).effort n + pc.effort = s.effort n + next.effort := by
  have moved := Counting.sum_map_set_add WorkerPc.effort found next
  simp only [State.effort, State.setWorker, List.length_set] at moved ⊢
  omega

/-- A wakeup costs the statements up to the next wait. -/
theorem effort_signal (n : Nat) (signalled : s.signal woken = some t) :
    t.effort n ≤ s.effort n + 3 := by
  rcases State.signal_cases signalled with ⟨_, _, rfl⟩ | ⟨_, waiting, rfl⟩ | ⟨j, _, blocked, rfl⟩
  · omega
  · simp only [State.effort, State.setMain, waiting, MainPc.toEnqueue, MainPc.unqueued,
      MainPc.effort]
    omega
  · have woke := effort_setWorker n blocked .wake
    simp only [WorkerPc.effort] at woke
    omega

theorem sum_broadcast (pcs : List WorkerPc) :
    ((pcs.map fun pc => if State.isWait pc then .wake else pc).map WorkerPc.effort).sum ≤
      (pcs.map WorkerPc.effort).sum + 3 * pcs.length := by
  induction pcs with
  | nil => exact Nat.le_refl _
  | cons pc pcs ih =>
    have first : WorkerPc.effort (if State.isWait pc then .wake else pc) ≤ pc.effort + 3 := by
      cases pc <;> simp [State.isWait, WorkerPc.effort]
    simp only [List.map_cons, List.sum_cons, List.length_cons]
    omega

theorem WorkerMove.effort_lt (move : WorkerMove s pc next) : next.effort < pc.effort := by
  cases move with
  | finish outside =>
    simp only [WorkerPc.effort]
    omega
  | unlock =>
    simp only [WorkerPc.effort]
    omega
  | _ => decide

theorem toEnqueue_enqueueLoop (job : Job) (i start : Nat) :
    (State.enqueueLoop job i start).toEnqueue = job.numWorks - i := by
  unfold State.enqueueLoop
  split
  · rfl
  · simp only [MainPc.toEnqueue, MainPc.unqueued]
    omega

theorem effort_enqueueLoop (job : Job) (i start numThreads : Nat) :
    (State.enqueueLoop job i start).effort numThreads ≤ 2 := by
  unfold State.enqueueLoop
  split <;> simp [MainPc.effort]

/-- A move of main brings it nearer to the end of its turn, with the same items before it. -/
theorem MainMove.effort_lt (move : MainMove s m m') :
    m'.toEnqueue = m.toEnqueue ∧ m'.effort s.workers.length < m.effort s.workers.length := by
  cases move with
  | @requestUnlock job =>
    have short := effort_enqueueLoop job 0 0 s.workers.length
    exact ⟨toEnqueue_enqueueLoop job 0 0, Nat.lt_succ_of_le short⟩
  | @enqueueUnlock job j end_ =>
    have short := effort_enqueueLoop job (j + 1) end_ s.workers.length
    exact ⟨toEnqueue_enqueueLoop job (j + 1) end_, Nat.lt_succ_of_le short⟩
  | @join j exited =>
    have inside := (List.getElem?_eq_some_iff.mp exited).1
    refine ⟨rfl, ?_⟩
    simp only [MainPc.effort]
    omega
  | _ =>
    refine ⟨rfl, ?_⟩
    simp only [MainPc.effort]
    omega

/-- Every statement of a worker lowers the effort, when the item it takes has at most `n * n`
cells. -/
theorem WorkerStep.effort_lt (found : s.workers[i]? = some pc)
    (short : ∀ work, s.queueSize ≠ 0 → s.workQueue[s.front]? = some (some work) →
      work.end_ ≤ n * n) (stepped : WorkerStep s i woken pc t) : t.effort n < s.effort n := by
  cases stepped with
  | @control _ next lock move =>
    have less := move.effort_lt
    have moved := effort_setWorker (s := { s with lock := lock }) n found next
    have same : ({ s with lock := lock } : State).effort n = s.effort n := rfl
    omega
  | @take work nonempty slot =>
    have cells := short work nonempty slot
    have moved := effort_setWorker (s := s.takeWork work) n found (.unlock work)
    have taken : (s.takeWork work).effort n + itemEffort n = s.effort n := by
      obtain ⟨rest, queued⟩ := Nat.exists_eq_succ_of_ne_zero nonempty
      simp only [State.effort, State.takeWork, queued, Nat.succ_eq_add_one, Nat.add_sub_cancel,
        Nat.mul_add_one]
      omega
    simp only [WorkerPc.effort] at moved
    simp only [itemEffort] at taken
    omega
  | @cell work k inside =>
    have moved := effort_setWorker (s := s.writeCell work.c (k / work.n) (k % work.n)
      (calculation work.n (work.a (k / work.n)) (work.b (k % work.n)))) n found
      (.compute work (k + 1))
    have same : (s.writeCell work.c (k / work.n) (k % work.n)
      (calculation work.n (work.a (k / work.n)) (work.b (k % work.n)))).effort n =
        s.effort n := rfl
    simp only [WorkerPc.effort] at moved
    omega
  | countLast last signalled =>
    have woke := effort_signal n signalled
    have moved := effort_setWorker n (signal_worker signalled found rfl) .release
    have same : ({ s with completed := s.completed + 1 } : State).effort n = s.effort n := rfl
    simp only [WorkerPc.effort] at moved
    omega
  | countMore more =>
    have moved := effort_setWorker (s := { s with completed := s.completed + 1 }) n found .release
    have same : ({ s with completed := s.completed + 1 } : State).effort n = s.effort n := rfl
    simp only [WorkerPc.effort] at moved
    omega

/-- Every statement of main inside a call lowers the effort. -/
theorem MainStep.effort_lt (turn : ∀ job i start, s.main = .enqueue job i start → i < job.numWorks)
    (stepped : MainStep n s woken s.main t) : t.effort n < s.effort n := by
  generalize at_pc : s.main = pc at stepped
  cases stepped with
  | @control _ next lock move =>
    obtain ⟨same, less⟩ := move.effort_lt
    simp only [State.effort, State.setMain, at_pc, same]
    omega
  | add =>
    simp only [State.effort, State.setMain, at_pc, MainPc.toEnqueue, MainPc.unqueued,
      MainPc.effort]
    omega
  | @put job j start u signalled =>
    have less := turn job j start at_pc
    have woke := effort_signal n signalled
    have stays : u.main = .enqueue job j start := by
      rcases signal_main signalled with unmoved | ⟨waiting, _⟩
      · exact unmoved.trans at_pc
      · have blocked : s.main = .syncWait := waiting
        rw [at_pc] at blocked
        cases blocked
    have stored : (s.putWork (s.newWork n job j start)).effort n = s.effort n + itemEffort n := by
      simp only [State.effort, State.putWork, Nat.mul_add_one]
      omega
    have goesOn : (u.setMain (.enqueueUnlock job j
        (rangeEnd job.workSize job.remainder start j))).effort n + (itemEffort n + 6) =
          u.effort n + 2 := by
      obtain ⟨rest, left⟩ := Nat.exists_eq_add_of_lt less
      have before : job.numWorks - j = rest + 1 := by omega
      have after : job.numWorks - (j + 1) = rest := by omega
      simp only [State.effort, State.setMain, stays, MainPc.toEnqueue, MainPc.unqueued,
        MainPc.effort, before, after, Nat.mul_add_one]
      omega
    omega
  | terminate =>
    have woke := sum_broadcast s.workers
    simp only [State.effort, State.setMain, State.broadcast, at_pc, MainPc.toEnqueue,
      MainPc.unqueued, MainPc.effort, List.length_map] at woke ⊢
    omega

end Effort

/-! ## Some thread can step -/

section Possible

variable {n i : Nat} {s : State} {pc : WorkerPc}

/-- A signal finds a thread to wake, main if it is blocked, or nobody waits. -/
theorem signal_possible (s : State) :
    ∃ woken t, s.signal woken = some t ∧ (s.main = .syncWait → woken = some .main) := by
  by_cases blocked : s.main = .syncWait
  · refine ⟨some .main, s.wake .main, ?_, fun _ => rfl⟩
    simp [State.signal, State.waits, State.mainWaits, blocked]
  by_cases waiting : ∃ j : Nat, s.workers[j]? = some .wait
  · obtain ⟨j, found⟩ := waiting
    refine ⟨some (.worker j), s.wake (.worker j), ?_, fun main => absurd main blocked⟩
    simp [State.signal, State.waits, State.workerWaits, found]
  · refine ⟨none, s, ?_, fun main => absurd main blocked⟩
    have mainAwake : s.mainWaits = false := by
      unfold State.mainWaits
      split
      · rename_i main
        exact absurd main blocked
      · rfl
    have workersAwake : s.workers.any State.isWait = false := by
      rw [List.any_eq_false]
      intro pc member waits
      obtain ⟨j, found⟩ := List.mem_iff_getElem?.mp member
      cases pc with
      | wait => exact waiting ⟨j, found⟩
      | _ => cases waits
    simp [State.signal, State.nobodyWaits, mainAwake, workersAwake]

/-- Whoever wants the free mutex can go on with it. -/
theorem acquire_possible (free : s.lock = none) (thread : Thread) (goOn : State → State) :
    ∃ t, (s.acquire thread).map goOn = some t := by
  refine ⟨goOn { s with lock := some thread }, ?_⟩
  simp [State.acquire, free]

/-- A worker that is neither blocked nor done can step when the mutex is free, and inside a
critical section. -/
theorem stepWorker_possible
    (slot : s.queueSize ≠ 0 → ∃ work, s.workQueue[s.front]? = some (some work))
    (awake : State.isWait pc = false) (running : pc ≠ .done)
    (able : s.lock = none ∨ pc.inside = true) :
    ∃ woken t, s.stepWorker i pc woken = some t ∧ (s.main = .syncWait → woken = some .main) := by
  cases pc with
  | lock | wake | relock =>
    have free : s.lock = none := able.resolve_right (by simp [WorkerPc.inside])
    obtain ⟨t, acquired⟩ := acquire_possible free (.worker i) _
    exact ⟨some .main, t, acquired, fun _ => rfl⟩
  | test =>
    unfold State.stepWorker
    dsimp only
    by_cases blocks : s.queueSize = 0 ∧ s.terminate = false
    · rw [if_pos blocks]
      exact ⟨some .main, _, rfl, fun _ => rfl⟩
    rw [if_neg blocks]
    by_cases leaves : s.terminate = true ∧ s.queueSize = 0
    · rw [if_pos leaves]
      exact ⟨some .main, _, rfl, fun _ => rfl⟩
    rw [if_neg leaves]
    have nonempty : s.queueSize ≠ 0 := by
      intro empty
      cases flag : s.terminate with
      | false => exact blocks ⟨empty, flag⟩
      | true => exact leaves ⟨flag, empty⟩
    obtain ⟨work, found⟩ := slot nonempty
    rw [found]
    exact ⟨some .main, _, rfl, fun _ => rfl⟩
  | wait => cases awake
  | done => exact absurd rfl running
  | leave | unlock | release => exact ⟨some .main, _, rfl, fun _ => rfl⟩
  | compute work k =>
    unfold State.stepWorker
    dsimp only
    by_cases inside : k < work.end_
    · rw [if_pos inside]
      exact ⟨some .main, _, rfl, fun _ => rfl⟩
    · rw [if_neg inside]
      exact ⟨some .main, _, rfl, fun _ => rfl⟩
  | count =>
    unfold State.stepWorker
    dsimp only
    obtain ⟨woken, t, signalled, reaches⟩ := signal_possible { s with completed := s.completed + 1 }
    by_cases last : s.completed + 1 ≥ s.totalWorks
    · refine ⟨woken, t.setWorker i .release, ?_, reaches⟩
      rw [if_pos last, signalled]
      rfl
    · refine ⟨woken, State.setWorker { s with completed := s.completed + 1 } i .release, ?_, reaches⟩
      rw [if_neg last]

/-- Main can step inside a call when the mutex is free, and inside a critical section, unless it
is blocked or joins. -/
theorem stepMain_possible (busy : s.main ≠ .ready) (undestroyed : s.main ≠ .destroyed)
    (unblocked : s.main ≠ .syncWait) (noJoin : ∀ j, s.main ≠ .join j)
    (able : s.lock = none ∨ s.main.inside = true) : ∃ woken t, s.stepMain n woken = some t := by
  unfold State.stepMain
  cases at_pc : s.main with
  | ready => exact absurd at_pc busy
  | destroyed => exact absurd at_pc undestroyed
  | syncWait => exact absurd at_pc unblocked
  | join j => exact absurd at_pc (noJoin j)
  | requestLock | enqueueLock | syncLock | syncWake | destroyLock =>
    have free : s.lock = none := able.resolve_right (by simp [at_pc, MainPc.inside])
    obtain ⟨t, acquired⟩ := acquire_possible free .main _
    exact ⟨none, t, acquired⟩
  | enqueue job j start =>
    obtain ⟨woken, t, signalled, _⟩ := signal_possible (s.putWork (s.newWork n job j start))
    refine ⟨woken, t.setMain (.enqueueUnlock job j (s.newWork n job j start).end_), ?_⟩
    dsimp only
    rw [signalled]
    rfl
  | syncTest =>
    dsimp only
    by_cases nonempty : s.queueSize > 0
    · rw [if_pos nonempty]
      exact ⟨none, _, rfl⟩
    · rw [if_neg nonempty]
      exact ⟨none, _, rfl⟩
  | requestAdd | requestUnlock | enqueueUnlock | syncUnlock | destroySet | destroyUnlock =>
    exact ⟨none, _, rfl⟩

end Possible

variable {numThreads n : Nat} {s t : State}

/-- The slot at the front of a ring that is not empty holds one of its items. -/
theorem QueueOk.slot (ok : QueueOk s) (nonempty : s.queueSize ≠ 0) :
    ∃ work, s.workQueue[s.front]? = some (some work) := by
  have inside : s.front < s.workQueue.length := by
    rw [ok.size]
    exact ok.front_lt
  cases held : s.workQueue[s.front] with
  | some work => exact ⟨work, by rw [List.getElem?_eq_getElem inside, held]⟩
  | none =>
    -- An empty slot would make the contents shorter than `queue_size`.
    exfalso
    obtain ⟨count, queued⟩ := Nat.exists_eq_succ_of_ne_zero nonempty
    have filled := ok.filled
    simp only [State.contents, queued, Nat.succ_eq_add_one, Ring.window_pop,
      Nat.mod_eq_of_lt ok.front_lt, List.getD_eq_getElem?_getD, List.getElem?_eq_getElem inside,
      held, Option.getD_some, List.filterMap_cons, id] at filled
    have short := List.length_filterMap_le (fun x => x)
      (Ring.window s.workQueue MAX_QUEUE_SIZE ((s.front + 1) % MAX_QUEUE_SIZE) count)
    rw [Ring.window_length] at short
    omega

/-- Inside a call every step of any thread lowers the effort. -/
theorem step_effort_lt {action : Action} (reached : (machine numThreads n).Reach keepsRoom s)
    (busy : s.main ≠ .ready) (stepped : s.step n action = some t) : t.effort n < s.effort n := by
  rcases State.step_cases stepped with ⟨call, _, ready, _⟩ | ⟨woken, _, statement⟩ |
    ⟨i, woken, pc, _, found, statement⟩
  · exact absurd ready busy
  · refine statement.effort_lt fun job j start at_pc => ?_
    have loop := reach_loopOk reached
    rw [at_pc] at loop
    exact loop.1
  · refine statement.effort_lt found fun work nonempty slot => ?_
    have member : work ∈ s.contents := by
      rw [(reach_queueOk reached).contents_take nonempty slot]
      exact List.mem_cons_self
    obtain ⟨_, _, _, _, _, cells⟩ := (reach_cellsOk reached).queued work member
    exact cells

/-- A worker that is not blocked has left its loop or can step, if the mutex is free or it is
inside. -/
theorem worker_can_step {i : Nat} {pc : WorkerPc}
    (reached : (machine numThreads n).Reach keepsRoom s) (found : s.workers[i]? = some pc)
    (awake : State.isWait pc = false) (running : pc ≠ .done)
    (able : s.lock = none ∨ pc.inside = true) :
    ∃ action t, wakesMain s action ∧ s.step n action = some t := by
  obtain ⟨woken, t, stepped, reaches⟩ :=
    stepWorker_possible (i := i) (reach_queueOk reached).slot awake running able
  refine ⟨.worker i woken, t, ?_, ?_⟩
  · rintro j other same _ _ blocked
    obtain ⟨rfl, rfl⟩ := Action.worker.inj same
    exact reaches blocked
  · simp only [State.step, found, stepped]

theorem main_can_step (busy : s.main ≠ .ready) (undestroyed : s.main ≠ .destroyed)
    (unblocked : s.main ≠ .syncWait) (noJoin : ∀ j, s.main ≠ .join j)
    (able : s.lock = none ∨ s.main.inside = true) :
    ∃ action t, wakesMain s action ∧ s.step n action = some t := by
  obtain ⟨woken, t, stepped⟩ := stepMain_possible (n := n) busy undestroyed unblocked noJoin able
  refine ⟨.main woken, t, ?_, stepped⟩
  rintro j other same
  cases same

/-- Inside a call the pool is never stuck, unless main and every worker are blocked. -/
theorem someone_steps (reached : (machine numThreads n).Reach keepsRoom s) (busy : s.main ≠ .ready)
    (undestroyed : s.main ≠ .destroyed) (awake : s.main = .syncWait → Awake s) :
    ∃ action t, wakesMain s action ∧ s.step n action = some t := by
  have owned := reach_mutexOwned reached
  have closing := reach_closing reached
  cases owner : s.lock with
  | some thread =>
    have within := (owned thread).mp owner
    cases thread with
    | main =>
      have within : s.main.inside = true := within
      refine main_can_step busy undestroyed ?_ ?_ (.inr within)
      · intro blocked
        rw [blocked] at within
        cases within
      · intro j joins
        rw [joins] at within
        cases within
    | worker i =>
      simp only [State.inside] at within
      cases found : s.workers[i]? with
      | none =>
        rw [found] at within
        cases within
      | some pc =>
        rw [found] at within
        have within : pc.inside = true := within
        refine worker_can_step reached found ?_ ?_ (.inr within)
        · cases pc <;> first | rfl | cases within
        · rintro rfl
          cases within
  | none =>
    by_cases blocked : s.main = .syncWait
    · obtain ⟨pc, member, notBlocked⟩ := awake blocked
      obtain ⟨i, found⟩ := List.mem_iff_getElem?.mp member
      refine worker_can_step reached found notBlocked ?_ (.inl owner)
      -- Nobody has left its loop before `tpool_destroy`.
      rintro rfl
      have flag := (closing.drained _ member rfl).1
      rw [closing.flag, blocked] at flag
      cases flag
    by_cases joins : ∃ j, s.main = .join j
    · obtain ⟨j, at_pc⟩ := joins
      have flag : s.terminate = true := by
        rw [closing.flag, at_pc]
        rfl
      have exits : wakesMain s (.main none) := by
        rintro i other same
        cases same
      by_cases all : s.workers.length ≤ j
      · refine ⟨.main none, s.setMain .destroyed, exits, ?_⟩
        simp only [State.step, State.stepMain, at_pc]
        rw [if_neg (Nat.not_lt.mpr all)]
      have inside : j < s.workers.length := Nat.lt_of_not_le all
      have found : s.workers[j]? = some s.workers[j] := List.getElem?_eq_getElem inside
      by_cases done : s.workers[j] = .done
      · refine ⟨.main none, s.setMain (.join (j + 1)), exits, ?_⟩
        simp only [State.step, State.stepMain, at_pc]
        rw [if_pos inside, found, done]
      · exact worker_can_step reached found
          (closing.woken flag _ (List.getElem_mem inside)) done (.inl owner)
    · exact main_can_step busy undestroyed blocked (fun j at_pc => joins ⟨j, at_pc⟩) (.inl owner)

end NTUSP.Pool
