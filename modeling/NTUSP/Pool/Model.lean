import NTUSP.Library.Machine
import NTUSP.Library.Ring
import NTUSP.Pool.Partition

/-!
# The thread pool of `tpool.c`

Main and the workers run as program counters over one `tpool_t`. A step is one
statement outside the mutex, or the statements of one critical section up to the
unlock or the wait: only the mutex's owner touches the pool's fields, so nothing
can be seen between them. Getting the mutex, releasing it, blocking in
`pthread_cond_wait` (which releases it in the same step) and getting it back after
a wakeup are steps of their own. `pthread_cond_signal` wakes a waiter the action
names, and nobody only when nobody waits.
-/

namespace NTUSP.Pool

open NTUSP.Library

/-- The capacity of `work_queue`. -/
def MAX_QUEUE_SIZE : Nat := 100

/-- `work_t`. Matrices `a` and `b` are never written while the pool runs and stand
for their contents; `c` names the output matrix of a request. `pointer` is the
address `malloc` returned, a new one for every work item. -/
structure Work where
  a : Matrix
  b : Matrix
  c : Nat
  start : Nat
  end_ : Nat
  n : Nat
  pointer : Nat

/-- One call of `tpool_request` by main. -/
structure Request where
  a : Matrix
  b : Matrix
  numWorks : Nat

/-- The locals of `tpool_request` after its divisions. -/
structure Job where
  a : Matrix
  transposeB : Matrix
  c : Nat
  numWorks : Nat
  workSize : Nat
  remainder : Nat

/-- Where main is. -/
inductive MainPc where
  | ready
  | requestLock (job : Job)
  | requestAdd (job : Job)
  | requestUnlock (job : Job)
  | enqueueLock (job : Job) (i start : Nat)
  | enqueue (job : Job) (i start : Nat)
  | enqueueUnlock (job : Job) (i end_ : Nat)
  | syncLock
  | syncTest
  | syncWait
  | syncWake
  | syncUnlock
  | destroyLock
  | destroySet
  | destroyUnlock
  | join (i : Nat)
  | destroyed

/-- Where a worker is in `worker_thread`. -/
inductive WorkerPc where
  /-- Line 10, wants the mutex. -/
  | lock
  /-- Lines 11 to 20, holds the mutex. -/
  | test
  /-- Blocked in `pthread_cond_wait`. -/
  | wait
  /-- Woken, wants the mutex back. -/
  | wake
  /-- Line 15, holds the mutex. -/
  | leave
  /-- Line 21, holds the mutex. -/
  | unlock (work : Work)
  /-- Lines 23 to 28, about to look at cell `i`. -/
  | compute (work : Work) (i : Nat)
  /-- Line 30, wants the mutex. -/
  | relock
  /-- Lines 31 to 34, holds the mutex. -/
  | count
  /-- Line 35, holds the mutex. -/
  | release
  | done

/-- A thread that can own the mutex or wait on the condition variable. -/
inductive Thread where
  | main
  | worker (i : Nat)
  deriving DecidableEq

/-- `tpool_t`, the output matrices, and the program counters. `requests`,
`enqueued` and `dequeued` record the past and are read by no step. -/
structure State where
  workQueue : List (Option Work)
  front : Nat
  rear : Nat
  queueSize : Nat
  totalWorks : Nat
  completed : Nat
  terminate : Bool
  lock : Option Thread
  c : Nat → Matrix
  main : MainPc
  workers : List WorkerPc
  requests : List Request
  enqueued : List Work
  dequeued : List Work

/-- The calls main can make. -/
inductive Call where
  | request (a b : Matrix) (numWorks : Nat)
  | synchronize
  | destroy

/-- What happens next: main enters a call, main takes a step, or a worker does.
`woken` is the thread a signal of that step wakes. -/
inductive Action where
  | call (call : Call)
  | main (woken : Option Thread)
  | worker (i : Nat) (woken : Option Thread)

namespace State

/-- Whether a worker is blocked on the condition variable. -/
def workerWaits (s : State) (i : Nat) : Bool :=
  match s.workers[i]? with
  | some .wait => true
  | _ => false

/-- Whether main is blocked on the condition variable. -/
def mainWaits (s : State) : Bool :=
  match s.main with
  | .syncWait => true
  | _ => false

/-- Whether a thread is blocked on the condition variable. -/
def waits (s : State) : Thread → Bool
  | .main => s.mainWaits
  | .worker i => s.workerWaits i

/-- Whether a worker program counter is the one inside `pthread_cond_wait`. -/
def isWait : WorkerPc → Bool
  | .wait => true
  | _ => false

/-- Whether nobody is blocked on the condition variable. -/
def nobodyWaits (s : State) : Bool :=
  !s.mainWaits && !s.workers.any isWait

def setWorker (s : State) (i : Nat) (pc : WorkerPc) : State :=
  { s with workers := s.workers.set i pc }

def setMain (s : State) (pc : MainPc) : State := { s with main := pc }

/-- A wakeup reaches a blocked thread. -/
def wake (s : State) : Thread → State
  | .main => s.setMain .syncWake
  | .worker i => s.setWorker i .wake

/-- `pthread_cond_signal`. -/
def signal (s : State) (woken : Option Thread) : Option State :=
  match woken with
  | none => if s.nobodyWaits then some s else none
  | some thread => if s.waits thread then some (s.wake thread) else none

/-- `pthread_cond_broadcast` by main, which is not waiting then. -/
def broadcast (s : State) : State :=
  { s with workers := s.workers.map fun pc => if isWait pc then .wake else pc }

/-- `pthread_mutex_lock`, possible when the mutex is free. -/
def acquire (s : State) (thread : Thread) : Option State :=
  if s.lock = none then some { s with lock := some thread } else none

/-- `pthread_mutex_unlock`. -/
def unlock (s : State) : State := { s with lock := none }

/-- `work->c[row][col] = value`. -/
def writeCell (s : State) (target row col : Nat) (value : Int) : State :=
  { s with c := fun r i j => if r = target ∧ i = row ∧ j = col then value else s.c r i j }

/-- Lines 18 to 20: take the item at `front`. -/
def takeWork (s : State) (work : Work) : State :=
  { s with
    front := (s.front + 1) % MAX_QUEUE_SIZE
    queueSize := s.queueSize - 1
    dequeued := s.dequeued ++ [work] }

/-- Lines 89 to 91: put an item at `rear`. -/
def putWork (s : State) (work : Work) : State :=
  { s with
    workQueue := s.workQueue.set s.rear (some work)
    rear := (s.rear + 1) % MAX_QUEUE_SIZE
    queueSize := s.queueSize + 1
    enqueued := s.enqueued ++ [work] }

/-- A step of worker `i` at `pc`. -/
def stepWorker (s : State) (i : Nat) (pc : WorkerPc) (woken : Option Thread) : Option State :=
  match pc with
  | .lock => (s.acquire (.worker i)).map (·.setWorker i .test)
  | .test =>
      if s.queueSize = 0 ∧ s.terminate = false then
        some (s.unlock.setWorker i .wait)
      else if s.terminate = true ∧ s.queueSize = 0 then
        some (s.setWorker i .leave)
      else
        match s.workQueue[s.front]? with
        | some (some work) => some ((s.takeWork work).setWorker i (.unlock work))
        -- An uninitialised slot: reading it has no defined behaviour.
        | _ => none
  | .wait => none
  | .wake => (s.acquire (.worker i)).map (·.setWorker i .test)
  | .leave => some (s.unlock.setWorker i .done)
  | .unlock work => some (s.unlock.setWorker i (.compute work work.start))
  | .compute work k =>
      if k < work.end_ then
        let row := k / work.n
        let col := k % work.n
        let value := calculation work.n (work.a row) (work.b col)
        some ((s.writeCell work.c row col value).setWorker i (.compute work (k + 1)))
      else
        some (s.setWorker i .relock)
  | .relock => (s.acquire (.worker i)).map (·.setWorker i .count)
  | .count =>
      let counted := { s with completed := s.completed + 1 }
      if counted.completed ≥ counted.totalWorks then
        (counted.signal woken).map (·.setWorker i .release)
      else
        some (counted.setWorker i .release)
  | .release => some (s.unlock.setWorker i .lock)
  | .done => none

/-- The work item of turn `i` of the loop in `tpool_request`. -/
def newWork (s : State) (n : Nat) (job : Job) (i start : Nat) : Work where
  a := job.a
  b := job.transposeB
  c := job.c
  start := start
  end_ := rangeEnd job.workSize job.remainder start i
  n := n
  pointer := s.enqueued.length

/-- Where the loop of `tpool_request` goes with counter `i`. -/
def enqueueLoop (job : Job) (i start : Nat) : MainPc :=
  if i < job.numWorks then .enqueueLock job i start else .ready

/-- A step of main inside a call. -/
def stepMain (n : Nat) (s : State) (woken : Option Thread) : Option State :=
  match s.main with
  | .ready => none
  | .requestLock job => (s.acquire .main).map (·.setMain (.requestAdd job))
  | .requestAdd job =>
      some { s with totalWorks := s.totalWorks + job.numWorks, main := .requestUnlock job }
  | .requestUnlock job => some (s.unlock.setMain (enqueueLoop job 0 0))
  | .enqueueLock job i start => (s.acquire .main).map (·.setMain (.enqueue job i start))
  | .enqueue job i start =>
      let work := s.newWork n job i start
      ((s.putWork work).signal woken).map (·.setMain (.enqueueUnlock job i work.end_))
  | .enqueueUnlock job i end_ => some (s.unlock.setMain (enqueueLoop job (i + 1) end_))
  | .syncLock => (s.acquire .main).map (·.setMain .syncTest)
  | .syncTest =>
      if s.queueSize > 0 then some (s.unlock.setMain .syncWait)
      else some (s.setMain .syncUnlock)
  | .syncWait => none
  | .syncWake => (s.acquire .main).map (·.setMain .syncTest)
  | .syncUnlock => some (s.unlock.setMain .ready)
  | .destroyLock => (s.acquire .main).map (·.setMain .destroySet)
  | .destroySet => some (({ s with terminate := true }).broadcast.setMain .destroyUnlock)
  | .destroyUnlock => some (s.unlock.setMain (.join 0))
  | .join i =>
      if i < s.workers.length then
        match s.workers[i]? with
        | some .done => some (s.setMain (.join (i + 1)))
        | _ => none
      else some (s.setMain .destroyed)
  | .destroyed => none

/-- Main enters a call. Dividing by `num_works = 0` has no behaviour, and `total` is the `int` of
the program where `Request.Fits` holds. -/
def enter (n : Nat) (s : State) : Call → Option State
  | .request a b numWorks =>
      if numWorks = 0 then none
      else
        let total := n * n
        some { s with
          requests := s.requests ++ [{ a, b, numWorks }]
          main := .requestLock {
            a, transposeB := transposeB b, c := s.requests.length, numWorks
            workSize := total / numWorks, remainder := total % numWorks } }
  | .synchronize => some (s.setMain .syncLock)
  | .destroy => some (s.setMain .destroyLock)

/-- One step of the program. -/
def step (n : Nat) (s : State) : Action → Option State
  | .call call =>
      match s.main with
      | .ready => s.enter n call
      | _ => none
  | .main woken => s.stepMain n woken
  | .worker i woken =>
      match s.workers[i]? with
      | some pc => s.stepWorker i pc woken
      | none => none

end State

/-- The state after `tpool_init`: `num_threads` workers about to take the mutex. The
slots of `work_queue` and the cells of the output matrices hold nothing yet. -/
def tpoolInit (numThreads : Nat) : State where
  workQueue := List.replicate MAX_QUEUE_SIZE none
  front := 0
  rear := 0
  queueSize := 0
  totalWorks := 0
  completed := 0
  terminate := false
  lock := none
  c := fun _ _ _ => 0
  main := .ready
  workers := List.replicate numThreads .lock
  requests := []
  enqueued := []
  dequeued := []

/-- The pool with `numThreads` workers for `n` by `n` matrices. -/
def machine (numThreads n : Nat) : Machine State Action where
  Initial s := s = tpoolInit numThreads
  step s action := s.step n action

end NTUSP.Pool
