import NTUSP.Pool.Accounting
import NTUSP.Pool.Ranges

/-!
# What `tpool_synchronize` waits for

`tpool_synchronize` waits until `queue_size` is 0, not until `completed` reaches
`total_works`. `CellsOk` follows every cell of every requested product through the
remaining part of main's loop, the ring and the workers until it is written, so
the state in which `tpool_synchronize` returns is the finished one exactly when no
worker is between its dequeue and its `completed++`.
-/

namespace NTUSP.Pool

open NTUSP.Library

/-- The cells a worker still has to write: the rest of the range of its item. -/
def WorkerPc.task? : WorkerPc → Option Work
  | .unlock work => some work
  | .compute work k => some { work with start := k }
  | _ => none

/-- The job of the request main is in. -/
def MainPc.job? : MainPc → Option Job
  | .requestLock job | .requestAdd job | .requestUnlock job => some job
  | .enqueueLock job _ _ | .enqueue job _ _ | .enqueueUnlock job _ _ => some job
  | _ => none

/-- The first cell of the current request that main has not put into an item. -/
def MainPc.rest? : MainPc → Option Nat
  | .requestLock _ | .requestAdd _ | .requestUnlock _ => some 0
  | .enqueueLock _ _ start | .enqueue _ _ start => some start
  | .enqueueUnlock _ _ end_ => some end_
  | _ => none

/-- The item covers a cell of an output matrix. -/
def Work.Covers (work : Work) (r cell : Nat) : Prop :=
  work.c = r ∧ work.start ≤ cell ∧ cell < work.end_

/-- Some worker has still to write the cells of `work`. -/
def State.Holds (s : State) (work : Work) : Prop :=
  ∃ (i : Nat) (pc : WorkerPc), s.workers[i]? = some pc ∧ pc.task? = some work

/-- A cell of request `r` that has not been written yet. -/
def State.Owes (s : State) (r cell : Nat) : Prop :=
  (∃ job start, s.main.job? = some job ∧ s.main.rest? = some start ∧ job.c = r ∧ start ≤ cell) ∨
  (∃ work ∈ s.contents, work.Covers r cell) ∨
  (∃ work, s.Holds work ∧ work.Covers r cell)

/-- An item computes the product of the request it names. -/
def Work.Matches (n : Nat) (requests : List Request) (work : Work) : Prop :=
  ∃ request, requests[work.c]? = some request ∧ work.a = request.a ∧
    work.b = transposeB request.b ∧ work.n = n ∧ work.end_ ≤ n * n

/-- Items and main's job belong to requests, and every cell of every request is
still owed or holds its value. -/
structure CellsOk (n : Nat) (s : State) : Prop where
  job : ∀ job, s.main.job? = some job → ∃ request, s.requests[job.c]? = some request ∧
    job.a = request.a ∧ job.transposeB = transposeB request.b
  queued : ∀ work ∈ s.contents, work.Matches n s.requests
  held : ∀ work, s.Holds work → work.Matches n s.requests
  cells : ∀ r request cell, s.requests[r]? = some request → cell < n * n →
    s.Owes r cell ∨
      s.c r (cell / n) (cell % n) = product n request.a request.b (cell / n) (cell % n)

/-- A worker with cells to write is between its dequeue and its count. -/
theorem WorkerPc.inFlight_of_task {pc : WorkerPc} {work : Work}
    (task : pc.task? = some work) : pc.inFlight = true := by
  cases pc with
  | unlock | compute => rfl
  | _ => cases task

section Holds

variable {s t : State} {i : Nat} {pc : WorkerPc}

/-- A new program counter of worker `i` replaces its task and no other's. -/
theorem holds_setWorker (found : s.workers[i]? = some pc) (next : WorkerPc) (work : Work) :
    (s.setWorker i next).Holds work ↔
      next.task? = some work ∨
        ∃ (j : Nat) (other : WorkerPc),
          j ≠ i ∧ s.workers[j]? = some other ∧ other.task? = some work := by
  simp only [State.Holds, State.setWorker, Counting.getElem?_set_of_get found]
  constructor
  · rintro ⟨j, other, found', task⟩
    split at found'
    · cases found'
      exact .inl task
    · rename_i apart
      exact .inr ⟨j, other, Ne.symm apart, found', task⟩
  · rintro (task | ⟨j, other, apart, found', task⟩)
    · exact ⟨i, next, if_pos rfl, task⟩
    · exact ⟨j, other, by rw [if_neg (Ne.symm apart), found'], task⟩

/-- A worker that keeps its task keeps what is held. -/
theorem holds_setWorker_same (found : s.workers[i]? = some pc) {next : WorkerPc}
    (same : next.task? = pc.task?) (work : Work) :
    (s.setWorker i next).Holds work ↔ s.Holds work := by
  rw [holds_setWorker found]
  constructor
  · rintro (task | ⟨j, other, _, found', task⟩)
    · exact ⟨i, pc, found, by rw [← same, task]⟩
    · exact ⟨j, other, found', task⟩
  · rintro ⟨j, other, found', task⟩
    by_cases apart : j = i
    · subst apart
      rw [found] at found'
      cases found'
      exact .inl (by rw [same, task])
    · exact .inr ⟨j, other, apart, found', task⟩

theorem holds_signal {woken : Option Thread} (signalled : s.signal woken = some t) (work : Work) :
    t.Holds work ↔ s.Holds work := by
  rcases State.signal_cases signalled with ⟨_, _, rfl⟩ | ⟨_, _, rfl⟩ | ⟨j, _, blocked, rfl⟩
  · rfl
  · rfl
  · have same : WorkerPc.task? .wake = WorkerPc.task? .wait := rfl
    exact holds_setWorker_same blocked same work

theorem holds_broadcast (work : Work) : s.broadcast.Holds work ↔ s.Holds work := by
  simp only [State.Holds, State.broadcast, List.getElem?_map, Option.map_eq_some_iff]
  constructor
  · rintro ⟨i, _, ⟨pc, found, rfl⟩, task⟩
    refine ⟨i, pc, found, ?_⟩
    cases pc <;> exact task
  · rintro ⟨i, pc, found, task⟩
    refine ⟨i, _, ⟨pc, found, rfl⟩, ?_⟩
    cases pc <;> exact task

end Holds

/-- More requests keep an item matched. -/
theorem Work.Matches.append {n : Nat} {requests : List Request} {work : Work}
    (matched : work.Matches n requests) (more : List Request) :
    work.Matches n (requests ++ more) := by
  obtain ⟨request, found, rest⟩ := matched
  refine ⟨request, ?_, rest⟩
  have inside : work.c < requests.length := (List.getElem?_eq_some_iff.mp found).1
  rw [List.getElem?_append_left inside, found]

/-- The invariant depends on the requests, the written cells and what is owed; a
step that keeps these and adds no item or job keeps it. -/
theorem CellsOk.transfer {n : Nat} {s t : State} (ok : CellsOk n s)
    (requests : t.requests = s.requests) (written : t.c = s.c)
    (job : ∀ job, t.main.job? = some job → s.main.job? = some job)
    (queued : ∀ work ∈ t.contents, work.Matches n s.requests)
    (held : ∀ work, t.Holds work → work.Matches n s.requests)
    (owes : ∀ r cell, cell < n * n → s.Owes r cell → t.Owes r cell) : CellsOk n t where
  job := by
    intro j at_job
    rw [requests]
    exact ok.job j (job j at_job)
  queued := by rwa [requests]
  held := by rwa [requests]
  cells := by
    intro r request cell found inside
    rw [requests] at found
    rw [written]
    rcases ok.cells r request cell found inside with owed | value
    · exact .inl (owes r cell inside owed)
    · exact .inr value

/-- A step of the counters or the locks: main has the same cells to put into items, and the
workers hold the same items, or drop one without cells. -/
theorem CellsOk.of_same {n : Nat} {s t : State} (ok : CellsOk n s)
    (requests : t.requests = s.requests) (written : t.c = s.c)
    (job : t.main.job? = s.main.job?) (rest : t.main.rest? = s.main.rest?)
    (contents : t.contents = s.contents) (held : ∀ work, t.Holds work → s.Holds work)
    (keeps : ∀ work r cell, s.Holds work → work.Covers r cell → t.Holds work) : CellsOk n t := by
  refine ok.transfer requests written ?_ ?_ (fun work now => ok.held work (held work now)) ?_
  · intro at_job now
    rwa [← job]
  · rw [contents]
    exact ok.queued
  · rintro r cell inside (unqueued | queued | ⟨work, before, covers⟩)
    · refine .inl ?_
      rw [job, rest]
      exact unqueued
    · refine .inr (.inl ?_)
      rw [contents]
      exact queued
    · exact .inr (.inr ⟨work, keeps work r cell before covers, covers⟩)

theorem cellsOk_init (numThreads n : Nat) : CellsOk n (tpoolInit numThreads) where
  job := by
    intro job at_job
    cases at_job
  queued := by
    intro work member
    cases member
  held := by
    rintro work ⟨i, pc, found, task⟩
    simp only [tpoolInit, List.getElem?_replicate] at found
    split at found
    · cases found
      cases task
    · cases found
  cells := by
    intro r request cell found
    simp [tpoolInit] at found

/-- A move of main keeps the job and the cells main has not put into an item. When the
loop ends its range arithmetic says that none are left. -/
theorem MainMove.rest {n : Nat} {s : State} {pc next : MainPc} (move : MainMove s pc next)
    (loop : LoopOk n pc) {job : Job} {start cell : Nat} (at_job : pc.job? = some job)
    (at_rest : pc.rest? = some start) (behind : start ≤ cell) (inside : cell < n * n) :
    ∃ start', next.job? = some job ∧ next.rest? = some start' ∧ start' ≤ cell := by
  cases move with
  | requestLock | enqueueLock => exact ⟨start, at_job, at_rest, behind⟩
  | requestUnlock =>
      obtain ⟨positive, _, _⟩ := loop
      refine ⟨0, ?_, ?_, Nat.zero_le _⟩ <;> simp only [State.enqueueLoop, if_pos positive]
      · exact at_job
      · rfl
  | @enqueueUnlock turn i end_ =>
      obtain ⟨less, size, rest, at_end⟩ := loop
      by_cases more : i + 1 < turn.numWorks
      · refine ⟨start, ?_, ?_, behind⟩ <;> simp only [State.enqueueLoop, if_pos more]
        · exact at_job
        · exact at_rest
      · have last : i + 1 = turn.numWorks := by omega
        rw [last, size, rest, rangeStart_last (n * n) (by omega)] at at_end
        cases at_rest
        omega
  | _ => cases at_job

theorem MainMove.job {s : State} {pc next : MainPc} (move : MainMove s pc next) {job : Job}
    (at_job : next.job? = some job) : pc.job? = some job := by
  cases move with
  | requestLock | enqueueLock => exact at_job
  | requestUnlock | enqueueUnlock =>
      simp only [State.enqueueLoop] at at_job
      split at at_job
      · exact at_job
      · cases at_job
  | _ => cases at_job

/-- A worker's move keeps the cells it has to write. -/
theorem WorkerMove.task {s : State} {pc next : WorkerPc} (move : WorkerMove s pc next) :
    next.task? = pc.task? ∨
      next.task? = none ∧ ∃ work, pc.task? = some work ∧ work.end_ ≤ work.start := by
  cases move with
  | finish outside => exact .inr ⟨rfl, _, rfl, outside⟩
  | _ => exact .inl rfl

/-- Entering a call owes every cell of a new request to main's loop. -/
theorem CellsOk.enter {n : Nat} {s t : State} (ok : CellsOk n s) (ready : s.main = .ready)
    (entered : CallStep n s t) : CellsOk n t := by
  have noJob : s.main.job? = none := by rw [ready]; rfl
  cases entered with
  | @request a b numWorks positive =>
      constructor
      · rintro job ⟨rfl⟩
        exact ⟨{ a, b, numWorks }, by simp, rfl, rfl⟩
      · exact fun work member => (ok.queued work member).append _
      · exact fun work held => (ok.held work held).append _
      · intro r request cell found inside
        by_cases old : r < s.requests.length
        · rw [List.getElem?_append_left old] at found
          rcases ok.cells r request cell found inside with owed | value
          · rcases owed with ⟨job, start, at_job, _⟩ | queued | held
            · rw [noJob] at at_job
              cases at_job
            · exact .inl (.inr (.inl queued))
            · exact .inl (.inr (.inr held))
          · exact .inr value
        · have new : r = s.requests.length := by
            have bound := (List.getElem?_eq_some_iff.mp found).1
            simp only [List.length_append, List.length_singleton] at bound
            omega
          exact .inl (.inl ⟨_, 0, rfl, rfl, new.symm, Nat.zero_le _⟩)
  | synchronize | destroy =>
      exact ok.of_same rfl rfl noJob.symm (by rw [ready]; rfl) rfl (fun _ => id)
        (fun _ _ _ held _ => held)

/-- A statement of main: an enqueue hands the cells of its range over to the item. -/
theorem CellsOk.mainStep {n : Nat} {s t : State} {woken : Option Thread} (ok : CellsOk n s)
    (queueOk : QueueOk s) (loop : LoopOk n s.main) (allowed : keepsRoom s (.main woken))
    (stepped : MainStep n s woken s.main t) : CellsOk n t := by
  generalize at_pc : s.main = pc at stepped
  rw [at_pc] at loop
  cases stepped with
  | control lock move =>
      refine ok.transfer rfl rfl ?_ ok.queued ok.held ?_
      · intro job at_job
        rw [at_pc]
        exact move.job at_job
      · rintro r cell inside (⟨job, start, at_job, at_rest, same, behind⟩ | queued | held)
        · rw [at_pc] at at_job at_rest
          obtain ⟨start', at_job', at_rest', behind'⟩ :=
            move.rest loop at_job at_rest behind inside
          exact .inl ⟨job, start', at_job', at_rest', same, behind'⟩
        · exact .inr (.inl queued)
        · exact .inr (.inr held)
  | @add job =>
      exact ok.of_same rfl rfl (by rw [at_pc]; rfl) (by rw [at_pc]; rfl) rfl (fun _ => id)
        (fun _ _ _ held _ => held)
  | @put job i start signalledState signalled =>
      obtain ⟨less, size, rest, at_start⟩ := loop
      have room : s.queueSize < MAX_QUEUE_SIZE := by
        simpa [keepsRoom, State.overruns, at_pc] using allowed
      have frame := signal_frame signalled
      have contents : signalledState.contents = s.contents ++ [s.newWork n job i start] := by
        rw [contents_congr (signal_queue signalled), queueOk.contents_put _ room]
      have holds := holds_signal signalled
      have bounded : rangeEnd job.workSize job.remainder start i ≤ n * n := by
        rw [at_start, rangeEnd_rangeStart, size, rest]
        calc rangeStart _ _ (i + 1) ≤ rangeStart _ _ job.numWorks := rangeStart_mono less
          _ = n * n := rangeStart_last (n * n) (by omega)
      have requests := congrArg State.requests frame
      have written := congrArg State.c frame
      refine ok.transfer requests written ?_ ?_ ?_ ?_
      · intro job at_job
        rw [at_pc]
        exact at_job
      · intro work member
        have member' : work ∈ s.contents ++ [s.newWork n job i start] := by
          rw [← contents]
          exact member
        rcases List.mem_append.mp member' with old | new
        · exact ok.queued work old
        · rw [List.mem_singleton] at new
          subst new
          obtain ⟨request, found, sameA, sameB⟩ := ok.job job (by rw [at_pc]; rfl)
          exact ⟨request, found, sameA, sameB, rfl, bounded⟩
      · intro work held
        exact ok.held work ((holds work).mp held)
      · rintro r cell inside (⟨job', start', at_job, at_rest, same, behind⟩ |
          ⟨work, member, covers⟩ | ⟨work, held, covers⟩)
        · rw [at_pc] at at_job at_rest
          cases at_job
          cases at_rest
          by_cases within : cell < rangeEnd job.workSize job.remainder start i
          · refine .inr (.inl ⟨s.newWork n job i start, ?_, same, behind, within⟩)
            have member : s.newWork n job i start ∈ signalledState.contents := by
              rw [contents]
              simp
            exact member
          · exact .inl ⟨job, _, rfl, rfl, same, Nat.le_of_not_lt within⟩
        · refine .inr (.inl ⟨work, ?_, covers⟩)
          have member' : work ∈ signalledState.contents := by
            rw [contents]
            exact List.mem_append_left _ member
          exact member'
        · exact .inr (.inr ⟨work, (holds work).mpr held, covers⟩)
  | terminate =>
      have holds := fun work => holds_broadcast (s := { s with terminate := true }) work
      exact ok.of_same rfl rfl (by rw [at_pc]; rfl) (by rw [at_pc]; rfl) rfl
        (fun work => (holds work).mp) (fun work _ _ held _ => (holds work).mpr held)

/-- A dequeue hands the cells of the item over to the worker. -/
theorem CellsOk.takeWork {n : Nat} {s : State} {i : Nat} {work : Work} (ok : CellsOk n s)
    (queueOk : QueueOk s) (found : s.workers[i]? = some .test) (nonempty : s.queueSize ≠ 0)
    (slot : s.workQueue[s.front]? = some (some work)) :
    CellsOk n ((s.takeWork work).setWorker i (.unlock work)) := by
  have contents := queueOk.contents_take nonempty slot
  have holds := holds_setWorker (s := s.takeWork work) found (.unlock work)
  have keeps : ∀ other, s.Holds other →
      ((s.takeWork work).setWorker i (.unlock work)).Holds other := by
    rintro other ⟨j, pc, found', task⟩
    have apart : j ≠ i := by
      rintro rfl
      rw [found] at found'
      cases found'
      cases task
    exact (holds other).mpr (.inr ⟨j, pc, apart, found', task⟩)
  refine ok.transfer rfl rfl (fun _ => id) ?_ ?_ ?_
  · intro other member
    apply ok.queued
    rw [contents]
    exact List.mem_cons_of_mem _ member
  · intro other held
    rcases (holds other).mp held with task | ⟨j, pc, _, found', task⟩
    · cases task
      apply ok.queued
      rw [contents]
      exact List.mem_cons_self
    · exact ok.held other ⟨j, pc, found', task⟩
  · rintro r cell inside (rest | ⟨other, member, covers⟩ | ⟨other, held, covers⟩)
    · exact .inl rest
    · rw [contents] at member
      rcases List.mem_cons.mp member with rfl | later
      · exact .inr (.inr ⟨other, (holds other).mpr (.inl rfl), covers⟩)
      · exact .inr (.inl ⟨other, later, covers⟩)
    · exact .inr (.inr ⟨other, keeps other held, covers⟩)

/-- The cell a worker computes holds the value of the product from then on. -/
theorem CellsOk.writeCell {n : Nat} {s : State} {i k : Nat} {work : Work} (ok : CellsOk n s)
    (found : s.workers[i]? = some (.compute work k)) :
    CellsOk n ((s.writeCell work.c (k / work.n) (k % work.n)
      (calculation work.n (work.a (k / work.n)) (work.b (k % work.n)))).setWorker i
        (.compute work (k + 1))) := by
  obtain ⟨request, found', sameA, sameB, sameN, bounded⟩ := ok.held _ ⟨i, _, found, rfl⟩
  simp only at found' sameA sameB sameN bounded
  have value : calculation work.n (work.a (k / work.n)) (work.b (k % work.n)) =
      product n request.a request.b (k / n) (k % n) := by
    rw [sameA, sameB, sameN]
    exact calculation_transposeB n request.a request.b (k / n) (k % n)
  have holds := holds_setWorker (s := s.writeCell work.c (k / work.n) (k % work.n)
    (calculation work.n (work.a (k / work.n)) (work.b (k % work.n)))) found
    (.compute work (k + 1))
  refine ⟨ok.job, ok.queued, fun other held => ?_, fun r request' cell foundRequest inside => ?_⟩
  · rcases (holds other).mp held with task | ⟨j, pc, _, found'', task⟩
    · cases task
      exact ⟨request, found', sameA, sameB, sameN, bounded⟩
    · exact ok.held other ⟨j, pc, found'', task⟩
  · have correct : s.c r (cell / n) (cell % n) =
        product n request'.a request'.b (cell / n) (cell % n) →
        (s.writeCell work.c (k / work.n) (k % work.n)
          (calculation work.n (work.a (k / work.n)) (work.b (k % work.n)))).c r
            (cell / n) (cell % n) =
          product n request'.a request'.b (cell / n) (cell % n) := by
      intro before
      simp only [State.writeCell, sameN]
      split
      · rename_i hit
        obtain ⟨rfl, row, col⟩ := hit
        have same : request = request' := Option.some.inj (found'.symm.trans foundRequest)
        rw [row, col, ← same, ← value, sameN]
      · exact before
    rcases ok.cells r request' cell foundRequest inside with
      (rest | queued | ⟨other, ⟨j, pc, found'', task⟩, covers⟩) | before
    · exact .inl (.inl rest)
    · exact .inl (.inr (.inl queued))
    · by_cases apart : j = i
      · subst apart
        rw [found] at found''
        cases found''
        cases task
        obtain ⟨rfl, behind, below⟩ := covers
        by_cases this : cell = k
        · subst this
          right
          have same : request = request' := Option.some.inj (found'.symm.trans foundRequest)
          simp only [State.setWorker, State.writeCell, sameN, and_self, if_true]
          rw [← same, ← value, sameN]
        · refine .inl (.inr (.inr ⟨_, (holds _).mpr (.inl rfl), rfl, ?_, below⟩))
          simp only at behind ⊢
          omega
      · exact .inl (.inr (.inr ⟨other, (holds other).mpr
          (.inr ⟨j, pc, apart, found'', task⟩), covers⟩))
    · exact .inr (correct before)

/-- A signal leaves main's job and the cells it has to put into items. -/
theorem signal_job {s t : State} {woken : Option Thread} (signalled : s.signal woken = some t) :
    t.main.job? = s.main.job? ∧ t.main.rest? = s.main.rest? := by
  rcases signal_main signalled with unmoved | ⟨waiting, moved⟩
  · have main : t.main = s.main := unmoved
    rw [main]
    exact ⟨rfl, rfl⟩
  · rw [waiting, moved]
    exact ⟨rfl, rfl⟩

/-- A statement of a worker: a dequeue hands the cells of the item over to the worker,
and the compute loop pays them one by one. -/
theorem CellsOk.workerStep {n : Nat} {s t : State} {i : Nat} {woken : Option Thread}
    {pc : WorkerPc} (ok : CellsOk n s) (queueOk : QueueOk s) (found : s.workers[i]? = some pc)
    (stepped : WorkerStep s i woken pc t) : CellsOk n t := by
  cases stepped with
  | @control _ next lock move =>
      have shift : ∀ work, (s.setWorker i next).Holds work → s.Holds work := by
        intro work held
        rcases (holds_setWorker found next work).mp held with task | ⟨j, other, _, found', task⟩
        · rcases move.task with same | ⟨none, _⟩
          · exact ⟨i, pc, found, by rw [← same, task]⟩
          · rw [none] at task
            cases task
        · exact ⟨j, other, found', task⟩
      refine ok.of_same rfl rfl rfl rfl rfl shift ?_
      intro work r cell held covers
      rcases move.task with same | ⟨none, done, task, empty⟩
      · exact (holds_setWorker_same found same work).mpr held
      · obtain ⟨j, other, found', task'⟩ := held
        have apart : j ≠ i := by
          rintro rfl
          rw [found] at found'
          cases found'
          rw [task] at task'
          cases task'
          have := covers.2.1
          have := covers.2.2
          omega
        exact (holds_setWorker found next work).mpr (.inr ⟨j, other, apart, found', task'⟩)
  | take nonempty slot => exact ok.takeWork queueOk found nonempty slot
  | cell within => exact ok.writeCell found
  | @countLast signalledState last signalled =>
      have frame := signal_frame signalled
      have requests := congrArg State.requests frame
      have written := congrArg State.c frame
      have contents := contents_congr (signal_queue signalled)
      have same : WorkerPc.task? .release = WorkerPc.task? .count := rfl
      have released := holds_setWorker_same (signal_worker signalled found rfl) same
      have woke := holds_signal signalled
      obtain ⟨job, rest⟩ := signal_job signalled
      exact ok.of_same requests written job rest contents
        (fun work held => (woke work).mp ((released work).mp held))
        (fun work _ _ held _ => (released work).mpr ((woke work).mpr held))
  | countMore more =>
      have same : WorkerPc.task? .release = WorkerPc.task? .count := rfl
      have holds := holds_setWorker_same (s := { s with completed := s.completed + 1 }) found same
      exact ok.of_same rfl rfl rfl rfl rfl (fun work => (holds work).mp)
        (fun work _ _ held _ => (holds work).mpr held)

/-! ## Every run -/

variable {numThreads n : Nat}

/-- In every run that keeps room in the ring, no cell is forgotten. -/
theorem reach_cellsOk {s : State} (reached : (machine numThreads n).Reach keepsRoom s) :
    CellsOk n s := by
  refine reached.invariant _ ?_ ?_
  · rintro _ rfl
    exact cellsOk_init numThreads n
  · intro s action t prior ok allowed stepped
    have queueOk := reach_queueOk prior
    rcases State.step_cases stepped with ⟨call, _, ready, entered⟩ | ⟨woken, rfl, statement⟩ |
      ⟨i, woken, pc, _, found, statement⟩
    · exact ok.enter ready entered
    · exact ok.mainStep queueOk (reach_loopOk prior) allowed statement
    · exact ok.workerStep queueOk found statement

/-- Main has left the wait loop of `tpool_synchronize` only on an empty queue. -/
theorem reach_syncUnlock_empty {guard : State → Action → Prop} {s : State}
    (reached : (machine numThreads n).Reach guard s) :
    s.main = .syncUnlock → s.queueSize = 0 := by
  refine reached.invariant (fun s => s.main = .syncUnlock → s.queueSize = 0) ?_ ?_
  · rintro _ rfl at_pc
    cases at_pc
  · intro s action t _ empty _ stepped at_pc
    rcases State.step_cases stepped with ⟨call, _, ready, entered⟩ | ⟨woken, _, stepped⟩ |
      ⟨i, woken, pc, _, found, stepped⟩
    · cases entered <;> cases at_pc
    · generalize s.main = pc at stepped
      cases stepped with
      | control lock move =>
          cases move with
          | pass nothing => exact nothing
          | requestUnlock | enqueueUnlock =>
              simp only [State.setMain, State.enqueueLoop] at at_pc
              split at at_pc <;> cases at_pc
          | _ => cases at_pc
      | _ => cases at_pc
    · cases stepped with
      | control | cell | countMore => exact empty at_pc
      | take nonempty slot => exact absurd (empty at_pc) nonempty
      | countLast last signalled =>
          have frame := congrArg State.queueSize (signal_frame signalled)
          rcases signal_main signalled with unmoved | ⟨_, woke⟩
          · have main : _ = s.main := unmoved
            exact frame.trans (empty (main ▸ at_pc))
          · simp only [State.setWorker, woke] at at_pc
            cases at_pc

/-- What a caller of `tpool_synchronize` expects when it returns. -/
structure Synchronized (n : Nat) (s : State) : Prop where
  counted : s.completed = s.totalWorks
  products : ∀ r request, s.requests[r]? = some request → ∀ i j, i < n → j < n →
    s.c r i j = product n request.a request.b i j
  quiet : ∀ work, ¬ s.Holds work

/-- The number of the cell in row `i` and column `j`. -/
theorem cell_of_row_col {n i j : Nat} (row : i < n) (col : j < n) :
    i * n + j < n * n ∧ (i * n + j) / n = i ∧ (i * n + j) % n = j := by
  refine ⟨?_, ?_, ?_⟩
  · calc i * n + j < i * n + n := by omega
      _ = (i + 1) * n := (Nat.succ_mul i n).symm
      _ ≤ n * n := Nat.mul_le_mul_right n row
  · rw [Nat.mul_comm, Nat.mul_add_div (by omega), Nat.div_eq_of_lt col, Nat.add_zero]
  · rw [Nat.mul_comm, Nat.mul_add_mod, Nat.mod_eq_of_lt col]

/-- With nothing queued, held or to be enqueued every requested product is computed. -/
theorem synchronized_of_idle {s : State} (reached : (machine numThreads n).Reach keepsRoom s)
    (empty : s.queueSize = 0) (idle : ∀ pc ∈ s.workers, pc.inFlight = false)
    (noJob : s.main.job? = none) (counted : s.completed = s.totalWorks) : Synchronized n s := by
  have free : ∀ work, ¬ s.Holds work := by
    rintro work ⟨i, pc, found, task⟩
    have notHeld := idle pc (List.mem_of_getElem? found)
    rw [WorkerPc.inFlight_of_task task] at notHeld
    cases notHeld
  refine ⟨counted, ?_, free⟩
  intro r request found i j row col
  obtain ⟨inside, rowOf, colOf⟩ := cell_of_row_col row col
  have cell := (reach_cellsOk reached).cells r request (i * n + j) found inside
  rw [rowOf, colOf] at cell
  rcases cell with (⟨job, start, at_job, _⟩ | ⟨work, member, _⟩ | ⟨work, held, _⟩) | value
  · rw [noJob] at at_job
    cases at_job
  · have filled := (reach_queueOk reached).filled
    rw [empty] at filled
    rw [List.eq_nil_of_length_eq_zero filled] at member
    cases member
  · exact absurd held (free work)
  · exact value

/-! ## Runs within the `int`s -/

/-- The works of the request that are not yet in `total_works`. -/
def MainPc.toCount : MainPc → Nat
  | .requestLock job | .requestAdd job => job.numWorks
  | _ => 0

/-- The works of all requests: `total_works` and what the current call adds to it. -/
def State.works (s : State) : Nat := s.totalWorks + s.main.toCount

theorem enqueueLoop_toCount (job : Job) (i start : Nat) :
    (State.enqueueLoop job i start).toCount = 0 := by
  unfold State.enqueueLoop
  split <;> rfl

theorem MainMove.toCount {s : State} {pc next : MainPc} (move : MainMove s pc next) :
    next.toCount = pc.toCount := by
  cases move with
  | requestUnlock => exact enqueueLoop_toCount _ 0 0
  | @enqueueUnlock job i end_ => exact enqueueLoop_toCount job (i + 1) end_
  | _ => rfl

/-- Only a call of `tpool_request` adds a request and its works. -/
theorem requests_cases {s t : State} {action : Action} (stepped : s.step n action = some t) :
    (t.requests = s.requests ∧ t.works = s.works) ∨
      ∃ a b numWorks, action = .call (.request a b numWorks) ∧ 0 < numWorks ∧
        t.requests = s.requests ++ [⟨a, b, numWorks⟩] ∧ t.works = s.totalWorks + numWorks := by
  cases action with
  | call call =>
    unfold State.step at stepped
    dsimp only at stepped
    split at stepped
    · rename_i ready
      cases call with
      | request a b numWorks =>
        unfold State.enter at stepped
        dsimp only at stepped
        split at stepped
        · cases stepped
        · rename_i positive
          cases stepped
          exact .inr ⟨a, b, numWorks, rfl, Nat.pos_of_ne_zero positive, rfl, rfl⟩
      | synchronize | destroy =>
        cases stepped
        refine .inl ⟨rfl, ?_⟩
        unfold State.works
        rw [ready]
        rfl
    · cases stepped
  | main woken =>
    left
    have statement := State.stepMain_cases stepped
    generalize at_pc : s.main = pc at statement
    unfold State.works
    rw [at_pc]
    cases statement with
    | control lock move => exact ⟨rfl, congrArg (s.totalWorks + ·) move.toCount⟩
    | add | terminate => exact ⟨rfl, rfl⟩
    | put signalled =>
      have requests := congrArg State.requests (signal_frame signalled)
      have counted := congrArg State.totalWorks (signal_frame signalled)
      exact ⟨requests, counted⟩
  | worker i woken =>
    left
    rcases State.step_cases stepped with ⟨call, same, _⟩ | ⟨woken, same, _⟩ |
      ⟨i, woken, pc, _, _, statement⟩
    · cases same
    · cases same
    · obtain ⟨fields, main, _⟩ := statement.request_frame
      obtain ⟨requests, rest⟩ := Prod.mk.inj fields
      refine ⟨requests, ?_⟩
      unfold State.works
      rw [(Prod.mk.inj rest).1]
      rcases main with same | ⟨blocked, woke⟩
      · rw [same]
      · rw [blocked, woke]
        rfl

/-- The guard of the runs that stay within the ring and within the `int`s. -/
def keepsRoomFits (n : Nat) (s : State) (action : Action) : Prop :=
  keepsRoom s action ∧ fitsInts n s action

instance (n : Nat) (s : State) (action : Action) : Decidable (keepsRoomFits n s action) := by
  unfold keepsRoomFits keepsRoom
  infer_instance

/-- No requested product overflows, and neither does `total_works`. -/
theorem reach_exact {s : State} (reached : (machine numThreads n).Reach (keepsRoomFits n) s) :
    (∀ request ∈ s.requests, request.Exact n) ∧ (s.works : Int) ≤ INT_MAX := by
  refine reached.invariant
    (fun s => (∀ request ∈ s.requests, request.Exact n) ∧ (s.works : Int) ≤ INT_MAX) ?_ ?_
  · rintro _ rfl
    exact ⟨nofun, show (0 : Int) ≤ INT_MAX by decide⟩
  · rintro s action t _ ⟨exact', counted⟩ ⟨_, allowed⟩ stepped
    rcases requests_cases stepped with ⟨same, works⟩ | ⟨a, b, numWorks, rfl, positive, grown, works⟩
    · rw [same, works]
      exact ⟨exact', counted⟩
    · obtain ⟨fits, total⟩ := allowed
      rw [grown, works]
      refine ⟨fun request member => ?_, total⟩
      rcases List.mem_append.mp member with before | added
      · exact exact' request before
      · rw [List.mem_singleton.mp added]
        exact fits.exact positive

/-- When `tpool_synchronize` returns, everything requested is finished exactly when no
worker was between its dequeue and its `completed++` as main left the wait loop. What is
requested is what the `int`s of the program compute, and one counts the works. -/
theorem synchronized_iff_none_inFlight {s t : State} {woken : Option Thread}
    (reached : (machine numThreads n).Reach (keepsRoomFits n) s) (returning : s.main = .syncUnlock)
    (returned : s.step n (.main woken) = some t) :
    (Synchronized n t ↔ ∀ pc ∈ s.workers, pc.inFlight = false) ∧
      (∀ request ∈ t.requests, request.Exact n) ∧ (t.totalWorks : Int) ≤ INT_MAX := by
  have inRing := reached.mono fun _ _ allowed => allowed.1
  have balanced := reach_balanced inRing
  have empty := reach_syncUnlock_empty inRing returning
  have within : keepsRoomFits n s (.main woken) := by
    refine ⟨?_, trivial⟩
    unfold keepsRoom State.overruns
    rw [returning]
  have after : t = s.unlock.setMain .ready := by
    simp only [State.step, State.stepMain, returning] at returned
    exact (Option.some.inj returned).symm
  obtain ⟨exact', counted⟩ := reach_exact (reached.step within returned)
  refine ⟨?_, exact', Int.le_trans (Int.ofNat_le.mpr (Nat.le_add_right _ _)) counted⟩
  unfold Balanced at balanced
  rw [returning, empty] at balanced
  simp only [MainPc.unqueued] at balanced
  constructor
  · rintro ⟨counted, _, _⟩ pc member
    rw [after] at counted
    have total : s.completed = s.totalWorks := counted
    have none : s.workers.countP WorkerPc.inFlight = 0 := by
      have := balanced
      simp only [State.inFlight] at this
      omega
    simpa using List.countP_eq_zero.mp none pc member
  · intro none
    have nobody : s.inFlight = 0 :=
      List.countP_eq_zero.mpr fun pc member => by simp [none pc member]
    have later := inRing.step within.1 returned
    rw [after] at later ⊢
    refine synchronized_of_idle later empty none rfl ?_
    show s.completed = s.totalWorks
    omega

/-- One worker and one request for a 1 by 1 product; the worker has taken the item when
main synchronizes. -/
def earlyReturn : List Action :=
  [.call (.request (fun _ _ => 2) (fun _ _ => 3) 1), .main none, .main none, .main none,
    .main none, .main none, .main none, .worker 0 none, .worker 0 none, .worker 0 none,
    .call .synchronize, .main none, .main none]

/-- The same, but main synchronizes after the worker has counted its work. -/
def lateReturn : List Action :=
  [.call (.request (fun _ _ => 2) (fun _ _ => 3) 1), .main none, .main none, .main none,
    .main none, .main none, .main none, .worker 0 none, .worker 0 none, .worker 0 none,
    .worker 0 none, .worker 0 none, .worker 0 none, .worker 0 none, .worker 0 none,
    .call .synchronize, .main none, .main none]

/-- Whether main is about to return from `tpool_synchronize`. -/
def MainPc.returning : MainPc → Bool
  | .syncUnlock => true
  | _ => false

theorem MainPc.eq_of_returning {pc : MainPc} (returning : pc.returning = true) :
    pc = .syncUnlock := by
  cases pc with
  | syncUnlock => rfl
  | _ => cases returning

/-- After a run in which the worker has counted, everything is finished on return. -/
theorem synchronized_lateReturn :
    ∃ s t, (machine 1 1).Reach (keepsRoomFits 1) s ∧ s.main = .syncUnlock ∧
      s.step 1 (.main none) = some t ∧ t.c 0 0 0 = 6 ∧ Synchronized 1 t := by
  have ran : ((machine 1 1).exec (fun s action => keepsRoomFits 1 s action) (tpoolInit 1)
      lateReturn).map (fun s => (s.main.returning, s.workers.map WorkerPc.inFlight, s.c 0 0 0)) =
        some (true, [false], 6) := by decide +kernel
  obtain ⟨s, reached, result⟩ := Machine.Reach.of_ran rfl ran
  simp only [Prod.mk.injEq] at result
  obtain ⟨returning, idle, value⟩ := result
  have at_pc := MainPc.eq_of_returning returning
  have returned : s.step 1 (.main none) = some (s.unlock.setMain .ready) := by
    simp only [State.step, State.stepMain, at_pc]
  refine ⟨s, _, reached, at_pc, returned, value, ?_⟩
  refine (synchronized_iff_none_inFlight reached at_pc returned).1.mpr ?_
  intro pc member
  have listed : pc.inFlight ∈ s.workers.map WorkerPc.inFlight := List.mem_map_of_mem member
  rw [idle] at listed
  simpa using listed

/-- `tpool_synchronize` returns while the only worker has not computed anything: no work
is counted and the cell of the product is still what it was. -/
theorem synchronize_returns_early :
    ∃ s t, (machine 1 1).Reach (keepsRoomFits 1) s ∧ s.main = .syncUnlock ∧
      s.step 1 (.main none) = some t ∧ t.completed = 0 ∧ t.totalWorks = 1 ∧ t.c 0 0 0 = 0 ∧
      ¬ Synchronized 1 t := by
  have ran : ((machine 1 1).exec (fun s action => keepsRoomFits 1 s action) (tpoolInit 1)
      earlyReturn).map (fun s => (s.main.returning, s.completed, s.totalWorks, s.c 0 0 0)) =
        some (true, 0, 1, 0) := by decide +kernel
  obtain ⟨s, reached, result⟩ := Machine.Reach.of_ran rfl ran
  simp only [Prod.mk.injEq] at result
  obtain ⟨returning, completed, totalWorks, value⟩ := result
  have at_pc := MainPc.eq_of_returning returning
  have returned : s.step 1 (.main none) = some (s.unlock.setMain .ready) := by
    simp only [State.step, State.stepMain, at_pc]
  refine ⟨s, _, reached, at_pc, returned, completed, totalWorks, value, ?_⟩
  rintro ⟨counted, _, _⟩
  have same : s.completed = s.totalWorks := counted
  rw [completed, totalWorks] at same
  cases same

end NTUSP.Pool
