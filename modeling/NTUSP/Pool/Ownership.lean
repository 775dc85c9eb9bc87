import NTUSP.Library.Mutex
import NTUSP.Pool.Shutdown

/-!
# The mutex of the pool

The program counters say which thread is between `pthread_mutex_lock` and the unlock or the wait.
The mutex belongs to that thread, in every run, and only its statements change the ring, the
counters and the flag.
-/

namespace NTUSP.Pool

open NTUSP.Library

/-- A worker between taking the mutex and giving it back. -/
def WorkerPc.inside : WorkerPc → Bool
  | .test | .leave | .unlock _ | .count | .release => true
  | _ => false

/-- Main between taking the mutex and giving it back. -/
def MainPc.inside : MainPc → Bool
  | .requestAdd _ | .requestUnlock _ | .enqueue _ _ _ | .enqueueUnlock _ _ _ | .syncTest
  | .syncUnlock | .destroySet | .destroyUnlock => true
  | _ => false

/-- The threads inside a critical section. -/
def State.inside (s : State) : Thread → Bool
  | .main => s.main.inside
  | .worker i => s.workers[i]?.elim false WorkerPc.inside

section Inside

variable {s t : State} {i : Nat} {pc : WorkerPc} {woken : Option Thread}

theorem inside_setWorker (found : s.workers[i]? = some pc) (next : WorkerPc) (thread : Thread) :
    (s.setWorker i next).inside thread =
      if thread = .worker i then next.inside else s.inside thread := by
  cases thread with
  | main => rfl
  | worker j =>
    simp only [State.inside, State.setWorker, Counting.getElem?_set_of_get found]
    by_cases same : j = i
    · subst same
      simp
    · simp [same, Ne.symm same]

theorem inside_setMain (s : State) (next : MainPc) (thread : Thread) :
    (s.setMain next).inside thread = if thread = .main then next.inside else s.inside thread := by
  cases thread with
  | main => rfl
  | worker j => rfl

/-- A wakeup leads nobody into a critical section. -/
theorem inside_signal (signalled : s.signal woken = some t) (thread : Thread) :
    t.inside thread = s.inside thread := by
  rcases State.signal_cases signalled with ⟨_, _, rfl⟩ | ⟨_, waiting, rfl⟩ | ⟨j, _, blocked, rfl⟩
  · rfl
  · rw [inside_setMain]
    split
    · rename_i main
      rw [main]
      simp [State.inside, waiting, MainPc.inside]
    · rfl
  · rw [inside_setWorker blocked]
    split
    · rename_i woke
      rw [woke]
      simp [State.inside, blocked, WorkerPc.inside]
    · rfl

theorem inside_broadcast (s : State) (thread : Thread) :
    s.broadcast.inside thread = s.inside thread := by
  cases thread with
  | main => rfl
  | worker j =>
    simp only [State.inside, State.broadcast, List.getElem?_map]
    cases s.workers[j]? with
    | none => rfl
    | some pc => cases pc <;> rfl

end Inside

/-- The owner of the mutex is the one thread inside a critical section. -/
def State.MutexOwned (s : State) : Prop := Owned s.lock s.inside

/-- The thread of an action. -/
def Action.thread : Action → Thread
  | .call _ | .main _ => .main
  | .worker i _ => .worker i

/-- A step of a thread hands the mutex over. -/
def State.Hands (s : State) (thread : Thread) (t : State) : Prop :=
  Handover thread s.lock s.inside t.lock t.inside

namespace State

variable {n i : Nat} {s t u : State} {pc next : WorkerPc} {m : MainPc} {woken : Option Thread}
  {thread : Thread}

theorem inside_congr (main : t.main = s.main) (workers : t.workers = s.workers)
    (thread : Thread) : t.inside thread = s.inside thread := by
  cases thread with
  | main => simp only [inside, main]
  | worker j => simp only [inside, workers]

/-- Only the mutex and the program counters matter. -/
theorem Hands.of_same (hands : s.Hands thread t) (lock : s.lock = u.lock) (main : s.main = u.main)
    (workers : s.workers = u.workers) : u.Hands thread t := by
  unfold Hands at hands ⊢
  have same : s.inside = u.inside := funext (inside_congr main workers)
  rw [← lock, ← same]
  exact hands

/-- A wakeup before the step of a thread. -/
theorem Hands.of_signal (signalled : s.signal woken = some t) (hands : t.Hands thread u) :
    s.Hands thread u := by
  have lock : t.lock = s.lock := by rw [signal_frame signalled]
  have same : t.inside = s.inside := funext (inside_signal signalled)
  unfold Hands at hands ⊢
  rw [← lock, ← same]
  exact hands

/-- A worker goes on inside or outside. -/
theorem hands_worker_stay (found : s.workers[i]? = some pc) (next : WorkerPc)
    (same : next.inside = pc.inside) :
    s.Hands (.worker i) (s.setWorker i next) := by
  refine .stay rfl fun other => ?_
  rw [inside_setWorker found]
  split
  · rename_i here
    rw [here, same]
    simp [inside, found]
  · rfl

/-- A worker takes the mutex. -/
theorem hands_worker_acquire (found : s.workers[i]? = some pc)
    (acquired : s.acquire (.worker i) = some t) (enters : next.inside = true) :
    s.Hands (.worker i) (t.setWorker i next) := by
  obtain ⟨free, rfl⟩ := acquire_eq_some acquired
  have found' : ({ s with lock := some (.worker i) } : State).workers[i]? = some pc := found
  refine .acquire free rfl ?_ fun other apart => ?_
  · rw [inside_setWorker found', if_pos rfl, enters]
  · rw [inside_setWorker found', if_neg apart]
    rfl

/-- A worker gives the mutex back. -/
theorem hands_worker_release (found : s.workers[i]? = some pc) (within : pc.inside = true)
    (leaves : next.inside = false) : s.Hands (.worker i) (s.unlock.setWorker i next) := by
  have found' : s.unlock.workers[i]? = some pc := found
  refine .release ?_ rfl ?_ fun other apart => ?_
  · simp [inside, found, within]
  · rw [inside_setWorker found', if_pos rfl, leaves]
  · rw [inside_setWorker found', if_neg apart]
    rfl

theorem hands_main_stay (same : m.inside = s.main.inside) : s.Hands .main (s.setMain m) := by
  refine .stay rfl fun other => ?_
  rw [inside_setMain]
  split
  · rename_i here
    rw [here, same]
    rfl
  · rfl

theorem hands_main_acquire (acquired : s.acquire .main = some t) (enters : m.inside = true) :
    s.Hands .main (t.setMain m) := by
  obtain ⟨free, rfl⟩ := acquire_eq_some acquired
  refine .acquire free rfl ?_ fun other apart => ?_
  · rw [inside_setMain, if_pos rfl, enters]
  · rw [inside_setMain, if_neg apart]
    rfl

theorem hands_main_release (within : s.main.inside = true) (leaves : m.inside = false) :
    s.Hands .main (s.unlock.setMain m) := by
  refine .release within rfl ?_ fun other apart => ?_
  · rw [inside_setMain, if_pos rfl, leaves]
  · rw [inside_setMain, if_neg apart]
    rfl

theorem stepWorker_hands (found : s.workers[i]? = some pc)
    (stepped : s.stepWorker i pc woken = some t) : s.Hands (.worker i) t := by
  cases pc with
  | lock | wake | relock =>
    obtain ⟨got, acquired, rfl⟩ := Option.map_eq_some_iff.mp stepped
    exact hands_worker_acquire found acquired rfl
  | test =>
    unfold State.stepWorker at stepped
    dsimp only at stepped
    by_cases blocks : s.queueSize = 0 ∧ s.terminate = false
    · rw [if_pos blocks] at stepped
      obtain rfl := Option.some.inj stepped
      exact hands_worker_release found rfl rfl
    rw [if_neg blocks] at stepped
    by_cases leaves : s.terminate = true ∧ s.queueSize = 0
    · rw [if_pos leaves] at stepped
      obtain rfl := Option.some.inj stepped
      exact hands_worker_stay found _ rfl
    rw [if_neg leaves] at stepped
    split at stepped
    · rename_i work slot
      obtain rfl := Option.some.inj stepped
      have taken : (s.takeWork work).workers[i]? = some .test := found
      exact (hands_worker_stay taken (.unlock work) rfl).of_same rfl rfl rfl
    · cases stepped
  | wait | done => cases stepped
  | leave | unlock work | release =>
    obtain rfl := Option.some.inj stepped
    exact hands_worker_release found rfl rfl
  | compute work k =>
    unfold State.stepWorker at stepped
    dsimp only at stepped
    by_cases inside : k < work.end_
    · rw [if_pos inside] at stepped
      obtain rfl := Option.some.inj stepped
      have written : (s.writeCell work.c (k / work.n) (k % work.n) (calculation work.n
          (work.a (k / work.n)) (work.b (k % work.n)))).workers[i]? = some (.compute work k) := found
      exact (hands_worker_stay written (.compute work (k + 1)) rfl).of_same rfl rfl rfl
    · rw [if_neg inside] at stepped
      obtain rfl := Option.some.inj stepped
      exact hands_worker_stay found _ rfl
  | count =>
    have counted : ({ s with completed := s.completed + 1 } : State).workers[i]? = some .count :=
      found
    unfold State.stepWorker at stepped
    dsimp only at stepped
    by_cases last : s.completed + 1 ≥ s.totalWorks
    · rw [if_pos last] at stepped
      obtain ⟨got, signalled, rfl⟩ := Option.map_eq_some_iff.mp stepped
      have goesOn : got.Hands (.worker i) (got.setWorker i .release) :=
        hands_worker_stay (signal_worker signalled counted rfl) .release rfl
      exact (goesOn.of_signal signalled).of_same rfl rfl rfl
    · rw [if_neg last] at stepped
      obtain rfl := Option.some.inj stepped
      exact (hands_worker_stay counted .release rfl).of_same rfl rfl rfl

/-- The loop of `tpool_request` goes on outside. -/
theorem inside_enqueueLoop (job : Job) (i start : Nat) :
    (enqueueLoop job i start).inside = false := by
  unfold enqueueLoop
  split <;> rfl

theorem stepMain_hands (stepped : s.stepMain n woken = some t) : s.Hands .main t := by
  unfold stepMain at stepped
  cases at_pc : s.main with
  | ready | syncWait | destroyed =>
    rw [at_pc] at stepped
    cases stepped
  | requestLock | enqueueLock | syncLock | syncWake | destroyLock =>
    rw [at_pc] at stepped
    obtain ⟨got, acquired, rfl⟩ := Option.map_eq_some_iff.mp stepped
    exact hands_main_acquire acquired rfl
  | requestAdd job =>
    rw [at_pc] at stepped
    obtain rfl := Option.some.inj stepped
    have goesOn : ({ s with totalWorks := s.totalWorks + job.numWorks } : State).Hands .main
        (setMain { s with totalWorks := s.totalWorks + job.numWorks } (.requestUnlock job)) := by
      refine hands_main_stay ?_
      rw [at_pc]
      rfl
    exact goesOn.of_same rfl rfl rfl
  | requestUnlock | enqueueUnlock =>
    rw [at_pc] at stepped
    obtain rfl := Option.some.inj stepped
    refine hands_main_release ?_ (inside_enqueueLoop ..)
    rw [at_pc]
    rfl
  | enqueue job i start =>
    rw [at_pc] at stepped
    obtain ⟨got, signalled, rfl⟩ := Option.map_eq_some_iff.mp stepped
    have stays : got.main = .enqueue job i start := by
      rcases signal_main signalled with unmoved | ⟨waiting, _⟩
      · exact unmoved.trans at_pc
      · have blocked : s.main = .syncWait := waiting
        rw [at_pc] at blocked
        cases blocked
    have goesOn : got.Hands .main
        (got.setMain (.enqueueUnlock job i (s.newWork n job i start).end_)) := by
      refine hands_main_stay ?_
      rw [stays]
      rfl
    exact (goesOn.of_signal signalled).of_same rfl rfl rfl
  | syncTest =>
    rw [at_pc] at stepped
    dsimp only at stepped
    by_cases nonempty : s.queueSize > 0
    · rw [if_pos nonempty] at stepped
      obtain rfl := Option.some.inj stepped
      refine hands_main_release ?_ rfl
      rw [at_pc]
      rfl
    · rw [if_neg nonempty] at stepped
      obtain rfl := Option.some.inj stepped
      refine hands_main_stay ?_
      rw [at_pc]
      rfl
  | syncUnlock | destroyUnlock =>
    rw [at_pc] at stepped
    obtain rfl := Option.some.inj stepped
    refine hands_main_release ?_ rfl
    rw [at_pc]
    rfl
  | destroySet =>
    rw [at_pc] at stepped
    obtain rfl := Option.some.inj stepped
    refine .stay rfl fun other => ?_
    rw [inside_setMain]
    split
    · rename_i here
      rw [here]
      simp [inside, at_pc, MainPc.inside]
    · refine (inside_broadcast _ other).trans ?_
      apply inside_congr
      · exact at_pc.symm
      · rfl
  | join j =>
    rw [at_pc] at stepped
    dsimp only at stepped
    by_cases more : j < s.workers.length
    · rw [if_pos more] at stepped
      split at stepped
      · obtain rfl := Option.some.inj stepped
        refine hands_main_stay ?_
        rw [at_pc]
        rfl
      · cases stepped
    · rw [if_neg more] at stepped
      obtain rfl := Option.some.inj stepped
      refine hands_main_stay ?_
      rw [at_pc]
      rfl

theorem enter_hands {call : Call} (ready : s.main = .ready) (entered : s.enter n call = some t) :
    s.Hands .main t := by
  have outside : s.main.inside = false := by
    rw [ready]
    rfl
  cases enter_cases entered with
  | @request a b numWorks positive =>
    refine .stay rfl fun other => ?_
    cases other with
    | main => exact outside.symm
    | worker j => rfl
  | synchronize | destroy => exact hands_main_stay outside.symm

/-- A step of the program hands the mutex over, on behalf of its own thread. -/
theorem step_hands {action : Action} (stepped : s.step n action = some t) :
    s.Hands action.thread t := by
  cases action with
  | call call =>
    simp only [step] at stepped
    split at stepped
    · rename_i ready
      exact enter_hands ready stepped
    · cases stepped
  | main woken => exact stepMain_hands stepped
  | worker i woken =>
    simp only [step] at stepped
    split at stepped
    · rename_i pc found
      exact stepWorker_hands found stepped
    · cases stepped

end State

variable {numThreads n : Nat}

theorem mutexOwned_init (numThreads : Nat) : (tpoolInit numThreads).MutexOwned := by
  apply Owned.of_free
  intro thread
  cases thread with
  | main => rfl
  | worker j =>
    simp only [State.inside, tpoolInit, List.getElem?_replicate]
    split <;> rfl

/-- In every run the mutex belongs to the one thread inside a critical section. -/
theorem reach_mutexOwned {guard : State → Action → Prop} {s : State}
    (reached : (machine numThreads n).Reach guard s) : s.MutexOwned := by
  refine reached.invariant _ ?_ ?_
  · rintro _ rfl
    exact mutexOwned_init numThreads
  · intro s action t _ owned _ stepped
    exact Owned.handover owned (State.step_hands stepped)

/-! ## What the mutex guards -/

/-- The state with the ring, the counters and the flag of another one. -/
def State.guardedBy (s fields : State) : State :=
  { s with
    workQueue := fields.workQueue
    front := fields.front
    rear := fields.rear
    queueSize := fields.queueSize
    totalWorks := fields.totalWorks
    completed := fields.completed
    terminate := fields.terminate }

section Guarded

variable {s fields : State}

@[simp] theorem guardedBy_lock : (s.guardedBy fields).lock = s.lock := rfl

@[simp] theorem guardedBy_main : (s.guardedBy fields).main = s.main := rfl

@[simp] theorem guardedBy_workers : (s.guardedBy fields).workers = s.workers := rfl

theorem acquire_guardedBy (s fields : State) (thread : Thread) :
    (s.guardedBy fields).acquire thread =
      (s.acquire thread).map (·.guardedBy fields) := by
  unfold State.acquire
  rw [guardedBy_lock]
  split <;> rfl

/-- Taking the mutex looks at nothing it guards. -/
theorem acquire_map_guardedBy (s fields : State) (thread : Thread) (goOn : State → State)
    (blind : ∀ t, goOn (t.guardedBy fields) = (goOn t).guardedBy fields) :
    ((s.guardedBy fields).acquire thread).map goOn =
      ((s.acquire thread).map goOn).map (·.guardedBy fields) := by
  rw [acquire_guardedBy, Option.map_map, Option.map_map]
  congr 1
  funext t
  exact blind t

theorem stepWorker_guardedBy {i : Nat} {pc : WorkerPc} (woken : Option Thread)
    (outside : pc.inside = false) : (s.guardedBy fields).stepWorker i pc woken =
      (s.stepWorker i pc woken).map (·.guardedBy fields) := by
  cases pc with
  | lock | wake | relock => exact acquire_map_guardedBy s fields _ _ fun _ => rfl
  | wait | done => rfl
  | compute work k =>
    unfold State.stepWorker
    dsimp only
    split <;> rfl
  | test | leave | unlock | count | release => cases outside

theorem stepMain_guardedBy (woken : Option Thread) (outside : s.main.inside = false) :
    (s.guardedBy fields).stepMain n woken =
      (s.stepMain n woken).map (·.guardedBy fields) := by
  unfold State.stepMain
  rw [guardedBy_main, guardedBy_workers]
  cases at_pc : s.main with
  | requestLock | enqueueLock | syncLock | syncWake | destroyLock =>
    dsimp only
    exact acquire_map_guardedBy s fields _ _ fun _ => rfl
  | ready | syncWait | destroyed => rfl
  | join j =>
    dsimp only
    split
    · split <;> rfl
    · rfl
  | requestAdd | requestUnlock | enqueue | enqueueUnlock | syncTest | syncUnlock | destroySet
  | destroyUnlock =>
    rw [at_pc] at outside
    cases outside

/-- A thread outside its critical sections neither looks at what the mutex guards nor changes
it: with other values there its step is the same. -/
theorem step_guardedBy {action : Action} (outside : s.inside action.thread = false) :
    (s.guardedBy fields).step n action = (s.step n action).map (·.guardedBy fields) := by
  cases action with
  | call call =>
    unfold State.step
    rw [guardedBy_main]
    cases at_pc : s.main with
    | ready =>
      cases call with
      | request a b numWorks =>
        dsimp only [State.enter]
        split <;> rfl
      | synchronize | destroy => rfl
    | _ => rfl
  | main woken => exact stepMain_guardedBy woken outside
  | worker i woken =>
    unfold State.step
    rw [guardedBy_workers]
    dsimp only
    cases found : s.workers[i]? with
    | none => rfl
    | some pc =>
      refine stepWorker_guardedBy woken ?_
      simpa [Action.thread, State.inside, found] using outside

end Guarded

/-- In every run at most one thread is inside a critical section, the mutex passes from its owner
to nobody and from nobody to the thread that takes it, and a step of any other thread neither
reads nor writes the ring, the counters or the flag. -/
theorem mutex_guards_pool {guard : State → Action → Prop} {s : State}
    (reached : (machine numThreads n).Reach guard s) :
    (∀ first second, s.inside first = true → s.inside second = true → first = second) ∧
      ∀ action, (∀ t, s.step n action = some t → t.lock = s.lock ∨
          (s.lock = none ∧ t.lock = some action.thread) ∨
          (s.lock = some action.thread ∧ t.lock = none)) ∧
        (s.lock ≠ some action.thread → ∀ fields : State,
          (s.guardedBy fields).step n action = (s.step n action).map (·.guardedBy fields)) := by
  have owned := reach_mutexOwned reached
  refine ⟨fun first second => owned.unique, fun action => ⟨fun t stepped => ?_, fun other fields => ?_⟩⟩
  · exact Owned.changes owned (State.step_hands stepped)
  · apply step_guardedBy
    cases within : s.inside action.thread with
    | false => rfl
    | true => exact absurd ((owned _).mpr within) other

/-- Worker 0 has the mutex: worker 1 is not inside, and neither is main. -/
theorem mutex_guards_pool_worker :
    ∃ s, (machine 2 1).Reach Machine.anyStep s ∧ s.lock = some (.worker 0) ∧
      s.inside (.worker 1) = false ∧ s.inside .main = false ∧
      ∀ fields : State, (s.guardedBy fields).step 1 (.worker 1 none) =
        (s.step 1 (.worker 1 none)).map (·.guardedBy fields) := by
  have ran : ((machine 2 1).exec (fun _ _ => true) (tpoolInit 2) [.worker 0 none]).map
      (fun s => (s.lock, s.inside (.worker 0))) = some (some (.worker 0), true) := by
    decide +kernel
  obtain ⟨s, runs, result⟩ := Option.map_eq_some_iff.mp ran
  simp only [Prod.mk.injEq] at result
  obtain ⟨owner, within⟩ := result
  have reached : (machine 2 1).Reach Machine.anyStep s :=
    (Machine.Reach.initial rfl).exec (fun _ _ _ => trivial) runs
  obtain ⟨alone, steps⟩ := mutex_guards_pool reached
  have outside : ∀ thread, thread ≠ .worker 0 → s.inside thread = false := by
    intro thread apart
    cases inside : s.inside thread with
    | false => rfl
    | true => exact absurd (alone thread _ inside within) apart
  refine ⟨s, reached, owner, outside _ (by decide), outside _ (by decide), ?_⟩
  refine (steps (.worker 1 none)).2 ?_
  rw [owner]
  decide

end NTUSP.Pool
