import NTUSP.Pool.Steps

/-!
# Accounting of the pool's work items

Two invariants of every run. `Balanced`: the counted works are those completed,
those some worker holds between its dequeue and its count, those in the queue and
those main has still to enqueue. `QueueOk`: as long as main enqueues only when the
ring has room, the ring holds exactly the items enqueued and not yet dequeued, in
order.
-/

namespace NTUSP.Pool

open NTUSP.Library

/-- A worker between its dequeue and `completed++`. -/
def WorkerPc.inFlight : WorkerPc → Bool
  | .unlock _ | .compute _ _ | .relock | .count => true
  | _ => false

/-- How many of the works already added to `total_works` main has yet to enqueue. -/
def MainPc.unqueued : MainPc → Nat
  | .requestUnlock job => job.numWorks
  | .enqueueLock job i _ => job.numWorks - i
  | .enqueue job i _ => job.numWorks - i
  | .enqueueUnlock job i _ => job.numWorks - (i + 1)
  | _ => 0

namespace State

/-- The number of workers between their dequeue and their count. -/
def inFlight (s : State) : Nat := s.workers.countP WorkerPc.inFlight

/-- The items in the ring, first to be dequeued first. -/
def contents (s : State) : List Work :=
  (Ring.window s.workQueue MAX_QUEUE_SIZE s.front s.queueSize).filterMap id

/-- Whether the action is an enqueue into a full ring. -/
def overruns (s : State) (action : Action) : Bool :=
  match action, s.main with
  | .main _, .enqueue _ _ _ => decide (MAX_QUEUE_SIZE ≤ s.queueSize)
  | _, _ => false

end State

/-- The guard of the runs whose queued works never exceed the ring. -/
def keepsRoom (s : State) (action : Action) : Prop := s.overruns action = false

section Signal

variable {s t : State} {woken : Option Thread}

/-- A signal changes at most one program counter. -/
theorem signal_frame (signalled : s.signal woken = some t) :
    t = { s with main := t.main, workers := t.workers } := by
  rcases State.signal_cases signalled with ⟨_, _, rfl⟩ | ⟨_, _, rfl⟩ | ⟨j, _, _, rfl⟩ <;> rfl

/-- Main moves only from its wait. -/
theorem signal_main (signalled : s.signal woken = some t) :
    t.main = s.main ∨ s.main = .syncWait ∧ t.main = .syncWake := by
  rcases State.signal_cases signalled with ⟨_, _, rfl⟩ | ⟨_, waiting, rfl⟩ | ⟨j, _, _, rfl⟩
  · exact .inl rfl
  · exact .inr ⟨waiting, rfl⟩
  · exact .inl rfl

/-- A statement of a worker leaves main and what it has requested alone, but may wake main. -/
theorem WorkerStep.request_frame {i : Nat} {pc : WorkerPc}
    (stepped : WorkerStep s i woken pc t) :
    (t.requests, t.totalWorks, t.enqueued) = (s.requests, s.totalWorks, s.enqueued) ∧
      (t.main = s.main ∨ s.main = .syncWait ∧ t.main = .syncWake) ∧
      t.queueSize ≤ s.queueSize := by
  cases stepped with
  | control | cell | countMore => exact ⟨rfl, .inl rfl, Nat.le_refl _⟩
  | take => exact ⟨rfl, .inl rfl, Nat.sub_le _ _⟩
  | countLast last signalled =>
    have frame := signal_frame signalled
    have fields := congrArg (fun u => (u.requests, u.totalWorks, u.enqueued)) frame
    have size := congrArg State.queueSize frame
    have main := signal_main signalled
    exact ⟨fields, main, Nat.le_of_eq size⟩

/-- A worker that is not blocked does not move. -/
theorem signal_worker (signalled : s.signal woken = some t) {i : Nat} {pc : WorkerPc}
    (found : s.workers[i]? = some pc) (awake : State.isWait pc = false) :
    t.workers[i]? = some pc := by
  rcases State.signal_cases signalled with ⟨_, _, rfl⟩ | ⟨_, _, rfl⟩ | ⟨j, _, blocked, rfl⟩
  · exact found
  · exact found
  · have apart : j ≠ i := by
      rintro rfl
      rw [blocked] at found
      cases found
      cases awake
    simp only [State.setWorker, Counting.getElem?_set_of_get blocked, if_neg apart, found]

/-- What does not tell a blocked worker from a woken one counts the same. -/
theorem signal_countP (signalled : s.signal woken = some t) (property : WorkerPc → Bool)
    (blind : property .wake = property .wait) :
    t.workers.countP property = s.workers.countP property := by
  rcases State.signal_cases signalled with ⟨_, _, rfl⟩ | ⟨_, _, rfl⟩ | ⟨j, _, blocked, rfl⟩
  · rfl
  · rfl
  · exact Counting.countP_set_same property blocked blind

end Signal

theorem broadcast_countP (s : State) (property : WorkerPc → Bool)
    (blind : property .wake = property .wait) :
    s.broadcast.workers.countP property = s.workers.countP property := by
  simp only [State.broadcast, List.countP_map]
  congr 1
  funext pc
  cases pc <;> simp [State.isWait, blind]

/-! ## Counters -/

/-- Every work added to `total_works` is completed, held, queued or still with main. -/
def Balanced (s : State) : Prop :=
  s.completed + s.inFlight + s.queueSize + s.main.unqueued = s.totalWorks

theorem unqueued_enqueueLoop (job : Job) (i start : Nat) :
    (State.enqueueLoop job i start).unqueued = job.numWorks - i := by
  unfold State.enqueueLoop
  split
  · rfl
  · simp only [MainPc.unqueued]
    omega

theorem balanced_init (numThreads : Nat) : Balanced (tpoolInit numThreads) := by
  simp [Balanced, tpoolInit, State.inFlight, MainPc.unqueued, List.countP_replicate,
    WorkerPc.inFlight]

theorem WorkerMove.inFlight_eq {s : State} {pc next : WorkerPc} (move : WorkerMove s pc next) :
    next.inFlight = pc.inFlight := by
  cases move <;> rfl

theorem MainMove.unqueued_eq {s : State} {pc next : MainPc} (move : MainMove s pc next) :
    next.unqueued = pc.unqueued := by
  cases move with
  | requestUnlock => exact unqueued_enqueueLoop _ 0 0
  | enqueueUnlock => exact unqueued_enqueueLoop _ _ _
  | _ => rfl

/-- What a worker's statement does to the counters. -/
theorem WorkerStep.balanced {s t : State} {i : Nat} {woken : Option Thread} {pc : WorkerPc}
    (found : s.workers[i]? = some pc) (stepped : WorkerStep s i woken pc t)
    (balanced : Balanced s) : Balanced t := by
  have moved : ∀ next, (s.workers.set i next).countP WorkerPc.inFlight +
      (WorkerPc.inFlight pc).toNat = s.inFlight + (WorkerPc.inFlight next).toNat :=
    fun next => Counting.countP_set_add WorkerPc.inFlight found next
  unfold Balanced at balanced ⊢
  cases stepped with
  | @control _ next lock move =>
      have kept := moved next
      rw [move.inFlight_eq] at kept
      simp only [State.setWorker, State.inFlight] at kept balanced ⊢
      omega
  | @take work nonempty slot =>
      have held := moved (.unlock work)
      simp only [WorkerPc.inFlight, Bool.toNat_false, Bool.toNat_true] at held
      simp only [State.setWorker, State.takeWork, State.inFlight] at held balanced ⊢
      omega
  | @cell work k inside =>
      have kept := moved (.compute work (k + 1))
      simp only [WorkerPc.inFlight] at kept
      simp only [State.setWorker, State.writeCell, State.inFlight] at kept balanced ⊢
      omega
  | @countLast signalledState last signalled =>
      have frame := signal_frame signalled
      have completed := congrArg State.completed frame
      have queueSize := congrArg State.queueSize frame
      have totalWorks := congrArg State.totalWorks frame
      have unqueued : signalledState.main.unqueued = s.main.unqueued := by
        rcases signal_main signalled with unmoved | ⟨waiting, woke⟩
        · exact congrArg MainPc.unqueued unmoved
        · have blocked : s.main = .syncWait := waiting
          rw [blocked, woke]
          rfl
      have same := signal_countP signalled WorkerPc.inFlight rfl
      have dropped := Counting.countP_set_add WorkerPc.inFlight
        (signal_worker signalled found rfl) .release
      simp only [WorkerPc.inFlight, Bool.toNat_false, Bool.toNat_true] at dropped
      simp only [State.setWorker, State.inFlight] at same completed queueSize totalWorks balanced ⊢
      omega
  | countMore more =>
      have dropped := moved .release
      simp only [WorkerPc.inFlight, Bool.toNat_false, Bool.toNat_true] at dropped
      simp only [State.setWorker, State.inFlight] at dropped balanced ⊢
      omega

/-- What a statement of main does to the counters. An item in its turn of the loop
is still with main, so the loop counter is below `num_works` there. -/
theorem MainStep.balanced {n : Nat} {s t : State} {woken : Option Thread}
    (turn : ∀ job i start, s.main = .enqueue job i start → i < job.numWorks)
    (stepped : MainStep n s woken s.main t) (balanced : Balanced s) : Balanced t := by
  unfold Balanced at balanced ⊢
  generalize at_pc : s.main = pc at stepped
  cases stepped with
  | control lock move =>
      simp only [State.setMain, State.inFlight, move.unqueued_eq] at balanced ⊢
      rw [at_pc] at balanced
      exact balanced
  | add =>
      simp only [State.setMain, State.inFlight, at_pc, MainPc.unqueued] at balanced ⊢
      omega
  | @put job i start signalledState signalled =>
      have less := turn job i start at_pc
      have frame := signal_frame signalled
      have completed := congrArg State.completed frame
      have queueSize := congrArg State.queueSize frame
      have totalWorks := congrArg State.totalWorks frame
      have same := signal_countP signalled WorkerPc.inFlight rfl
      simp only [State.setMain, State.putWork, State.inFlight, at_pc, MainPc.unqueued] at *
      omega
  | terminate =>
      have same := broadcast_countP { s with terminate := true } WorkerPc.inFlight rfl
      simp only [State.setMain, State.inFlight, at_pc, MainPc.unqueued] at same balanced ⊢
      simp only [State.broadcast] at same ⊢
      omega

/-! ## The turn of the enqueue loop -/

/-- Main's place in the loop of `tpool_request`: the job's range arithmetic, a counter
below `num_works`, and `start` at the closed form of its turn. -/
def LoopOk (n : Nat) : MainPc → Prop
  | .requestLock job | .requestAdd job | .requestUnlock job =>
      0 < job.numWorks ∧ job.workSize = n * n / job.numWorks ∧
        job.remainder = n * n % job.numWorks
  | .enqueueLock job i start | .enqueue job i start =>
      i < job.numWorks ∧ job.workSize = n * n / job.numWorks ∧
        job.remainder = n * n % job.numWorks ∧
        start = rangeStart job.workSize job.remainder i
  | .enqueueUnlock job i end_ =>
      i < job.numWorks ∧ job.workSize = n * n / job.numWorks ∧
        job.remainder = n * n % job.numWorks ∧
        end_ = rangeStart job.workSize job.remainder (i + 1)
  | _ => True

theorem loopOk_enqueueLoop {n : Nat} {job : Job} {i start : Nat}
    (size : job.workSize = n * n / job.numWorks) (rest : job.remainder = n * n % job.numWorks)
    (at_turn : start = rangeStart job.workSize job.remainder i) :
    LoopOk n (State.enqueueLoop job i start) := by
  unfold State.enqueueLoop
  split
  · rename_i less
    exact ⟨less, size, rest, at_turn⟩
  · trivial

theorem MainMove.loopOk {n : Nat} {s : State} {pc next : MainPc} (move : MainMove s pc next)
    (ok : LoopOk n pc) : LoopOk n next := by
  cases move with
  | requestUnlock =>
      obtain ⟨_, size, rest⟩ := ok
      exact loopOk_enqueueLoop size rest (by simp)
  | enqueueUnlock =>
      obtain ⟨_, size, rest, at_turn⟩ := ok
      exact loopOk_enqueueLoop size rest at_turn
  | requestLock | enqueueLock => exact ok
  | _ => trivial

/-- No step leaves the loop's arithmetic. -/
theorem step_loopOk {n : Nat} {s t : State} {action : Action}
    (stepped : s.step n action = some t) (ok : LoopOk n s.main) : LoopOk n t.main := by
  rcases State.step_cases stepped with ⟨call, _, _, entered⟩ | ⟨woken, _, stepped⟩ |
    ⟨i, woken, pc, _, found, stepped⟩
  · cases entered with
    | request positive => exact ⟨positive, rfl, rfl⟩
    | synchronize | destroy => trivial
  · generalize at_pc : s.main = pc at stepped
    rw [at_pc] at ok
    cases stepped with
    | control lock move => exact move.loopOk ok
    | add => exact ok
    | put signalled =>
        obtain ⟨less, size, rest, at_turn⟩ := ok
        refine ⟨less, size, rest, ?_⟩
        rw [at_turn, rangeEnd_rangeStart]
    | terminate => trivial
  · cases stepped with
    | countLast last signalled =>
        rcases signal_main signalled with unmoved | ⟨_, woke⟩
        · have same : _ = s.main := unmoved
          simpa only [State.setWorker, same] using ok
        · simp only [State.setWorker, woke]
          trivial
    | _ => exact ok

/-! ## The ring and the history -/

/-- The part of a state that the ring operations touch. -/
def State.queue (s : State) :=
  (s.workQueue, s.front, s.rear, s.queueSize, s.enqueued, s.dequeued)

/-- The ring holds the items enqueued and not yet dequeued, in order, and every
item got its own address. -/
structure QueueOk (s : State) : Prop where
  size : s.workQueue.length = MAX_QUEUE_SIZE
  front_lt : s.front < MAX_QUEUE_SIZE
  rear_eq : s.rear = (s.front + s.queueSize) % MAX_QUEUE_SIZE
  bounded : s.queueSize ≤ MAX_QUEUE_SIZE
  history : s.enqueued = s.dequeued ++ s.contents
  filled : s.contents.length = s.queueSize
  pointers : s.enqueued.map Work.pointer = List.range s.enqueued.length

theorem signal_queue {s t : State} {woken : Option Thread}
    (signalled : s.signal woken = some t) : t.queue = s.queue := by
  have frame := congrArg State.queue (signal_frame signalled)
  exact frame

theorem contents_congr {s t : State} (same : t.queue = s.queue) : t.contents = s.contents := by
  simp only [State.queue, Prod.mk.injEq] at same
  unfold State.contents
  rw [same.1, same.2.1, same.2.2.2.1]

theorem QueueOk.congr {s t : State} (same : t.queue = s.queue) (ok : QueueOk s) : QueueOk t := by
  have contents := contents_congr same
  simp only [State.queue, Prod.mk.injEq] at same
  obtain ⟨cells, front, rear, count, enqueued, dequeued⟩ := same
  constructor
  · rw [cells]; exact ok.size
  · rw [front]; exact ok.front_lt
  · rw [rear, front, count]; exact ok.rear_eq
  · rw [count]; exact ok.bounded
  · rw [enqueued, dequeued, contents]; exact ok.history
  · rw [contents, count]; exact ok.filled
  · rw [enqueued]; exact ok.pointers

theorem queueOk_init (numThreads : Nat) : QueueOk (tpoolInit numThreads) where
  size := by simp [tpoolInit]
  front_lt := Nat.succ_pos _
  rear_eq := rfl
  bounded := Nat.zero_le _
  history := rfl
  filled := rfl
  pointers := rfl

/-- An enqueue with room appends to the contents. -/
theorem QueueOk.contents_put {s : State} (ok : QueueOk s) (work : Work)
    (room : s.queueSize < MAX_QUEUE_SIZE) :
    (s.putWork work).contents = s.contents ++ [work] := by
  simp only [State.contents, State.putWork, ok.rear_eq,
    Ring.window_push (some work) ok.size room, List.filterMap_append]
  rfl

theorem QueueOk.putWork {s : State} (ok : QueueOk s) {work : Work}
    (room : s.queueSize < MAX_QUEUE_SIZE) (address : work.pointer = s.enqueued.length) :
    QueueOk (s.putWork work) := by
  have contents := ok.contents_put work room
  constructor
  · simp [State.putWork, ok.size]
  · exact ok.front_lt
  · simp only [State.putWork, ok.rear_eq, Nat.mod_add_mod]
    rw [Nat.add_assoc]
  · exact room
  · rw [contents]
    simp only [State.putWork]
    rw [ok.history, List.append_assoc]
  · rw [contents, List.length_append, ok.filled]
    rfl
  · simp only [State.putWork, List.map_append, List.length_append, ok.pointers, List.map_cons,
      List.map_nil, address, List.length_cons, List.length_nil, List.range_succ]

/-- A dequeue moves the first item of the contents to the history. -/
theorem QueueOk.contents_take {s : State} (ok : QueueOk s) {work : Work}
    (nonempty : s.queueSize ≠ 0) (slot : s.workQueue[s.front]? = some (some work)) :
    s.contents = work :: (s.takeWork work).contents := by
  obtain ⟨count, queued⟩ := Nat.exists_eq_succ_of_ne_zero nonempty
  simp only [State.contents, State.takeWork, queued, Nat.succ_eq_add_one, Nat.add_sub_cancel,
    Ring.window_pop, Nat.mod_eq_of_lt ok.front_lt, List.getD_eq_getElem?_getD, slot]
  rfl

theorem QueueOk.takeWork {s : State} (ok : QueueOk s) {work : Work}
    (nonempty : s.queueSize ≠ 0) (slot : s.workQueue[s.front]? = some (some work)) :
    QueueOk (s.takeWork work) := by
  have contents := ok.contents_take nonempty slot
  constructor
  · exact ok.size
  · exact Nat.mod_lt _ (by decide)
  · simp only [State.takeWork, Nat.mod_add_mod]
    rw [ok.rear_eq]
    congr 1
    omega
  · have bounded := ok.bounded
    simp only [State.takeWork]
    omega
  · have history := ok.history
    rw [contents] at history
    simpa [State.takeWork] using history
  · have filled := ok.filled
    rw [contents, List.length_cons] at filled
    simp only [State.takeWork] at filled ⊢
    omega
  · exact ok.pointers

/-- A step leaves the queue alone, takes the item at `front`, or is main's enqueue. -/
theorem step_queue {n : Nat} {s t : State} {action : Action}
    (stepped : s.step n action = some t) :
    t.queue = s.queue ∨
    (∃ work, s.queueSize ≠ 0 ∧ s.workQueue[s.front]? = some (some work) ∧
      t.queue = (s.takeWork work).queue) ∨
    (∃ woken job i start, action = .main woken ∧ s.main = .enqueue job i start ∧
      t.queue = (s.putWork (s.newWork n job i start)).queue) := by
  rcases State.step_cases stepped with ⟨call, _, _, entered⟩ | ⟨woken, isMain, stepped⟩ |
    ⟨i, woken, pc, _, found, stepped⟩
  · left
    cases entered <;> rfl
  · generalize at_pc : s.main = pc at stepped
    cases stepped with
    | control | add | terminate => exact .inl rfl
    | put signalled =>
        have same := signal_queue signalled
        exact .inr (.inr ⟨woken, _, _, _, isMain, rfl, same⟩)
  · cases stepped with
    | control | cell | countMore => exact .inl rfl
    | take nonempty slot => exact .inr (.inl ⟨_, nonempty, slot, rfl⟩)
    | countLast last signalled =>
        have same := signal_queue signalled
        exact .inl same

/-- The ring invariant survives every step that is not an enqueue into a full ring. -/
theorem step_queueOk {n : Nat} {s t : State} {action : Action} (ok : QueueOk s)
    (allowed : keepsRoom s action) (stepped : s.step n action = some t) : QueueOk t := by
  rcases step_queue stepped with same | ⟨work, nonempty, slot, same⟩ |
    ⟨woken, job, i, start, rfl, at_pc, same⟩
  · exact ok.congr same
  · exact (ok.takeWork nonempty slot).congr same
  · have room : s.queueSize < MAX_QUEUE_SIZE := by
      simpa [keepsRoom, State.overruns, at_pc] using allowed
    exact (ok.putWork room rfl).congr same

/-! ## Every run -/

variable {numThreads n : Nat}

/-- The enqueue loop's arithmetic holds in every reachable state. -/
theorem reach_loopOk {guard : State → Action → Prop} {s : State}
    (reached : (machine numThreads n).Reach guard s) : LoopOk n s.main := by
  refine reached.invariant (fun s => LoopOk n s.main) ?_ ?_
  · rintro _ rfl
    trivial
  · intro s action t _ ok _ stepped
    exact step_loopOk stepped ok

/-- The counters balance in every reachable state. -/
theorem reach_balanced {guard : State → Action → Prop} {s : State}
    (reached : (machine numThreads n).Reach guard s) : Balanced s := by
  refine reached.invariant _ ?_ ?_
  · rintro _ rfl
    exact balanced_init numThreads
  · intro s action t prior balanced _ stepped
    rcases State.step_cases stepped with ⟨call, _, ready, entered⟩ | ⟨woken, _, stepped⟩ |
      ⟨i, woken, pc, _, found, stepped⟩
    · unfold Balanced at balanced ⊢
      rw [ready] at balanced
      cases entered <;> exact balanced
    · refine stepped.balanced ?_ balanced
      intro job i start at_pc
      have loop := reach_loopOk prior
      rw [at_pc] at loop
      exact loop.1
    · exact stepped.balanced found balanced

/-- The ring invariant holds in every run that never enqueues into a full ring. -/
theorem reach_queueOk {s : State} (reached : (machine numThreads n).Reach keepsRoom s) :
    QueueOk s := by
  refine reached.invariant _ ?_ ?_
  · rintro _ rfl
    exact queueOk_init numThreads
  · intro s action t _ ok allowed stepped
    exact step_queueOk ok allowed stepped

/-- A run that keeps room in the ring, from a list of actions that passes the check. -/
theorem reach_of_exec {numThreads n : Nat} {s : State} {actions : List Action}
    (runs : (machine numThreads n).exec (fun s action => !s.overruns action)
      (tpoolInit numThreads) actions = some s) : (machine numThreads n).Reach keepsRoom s :=
  (Library.Machine.Reach.initial rfl).exec
    (fun s action passed => by simpa [keepsRoom] using passed) runs

end NTUSP.Pool
