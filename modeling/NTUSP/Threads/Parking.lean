import NTUSP.Threads.LeftBehind
import NTUSP.Threads.Remaining

/-!
# How often the threads park

A thread that runs `enroll` parks at most twice, before it reads and before it writes. Only
parking moves the tail of the waiting queue, so with at most 49 such threads no thread parks in
the last place of the array, whatever the signals are.
-/

namespace NTUSP.Threads

open NTUSP.Library

/-- The times a thread that resumes here may still park. -/
def Env.parks : Env → Nat
  | .setup => 2
  | .readLock | .yield 1 | .yield 2 => 1
  | _ => 0

def Tcb.parks (tcb : Tcb) : Nat := if tcb.routine = .enroll then tcb.env.parks else 0

namespace State

variable {n p status : Nat} {s t v : State} {env : Env} {exits : Bool} {queue : TcbQueue}
  {pending : Option Signal} {jump : Jump}

/-- The times all created threads may still park. -/
def parksLeft (s : State) (n : Nat) : Nat :=
  ((List.range' 1 n).map fun p => (s.tcbs p).parks).sum

/-! ## The tail of the waiting queue -/

theorem waitScanFrom_size (s : State) (i count : Nat) :
    (s.waitScanFrom i count).waitingQueue.size = s.waitingQueue.size := by
  induction count generalizing s i with
  | zero => rfl
  | succ count ih =>
    refine (ih (s.waitScanStep i) (i + 1)).trans ?_
    unfold waitScanStep
    dsimp only
    split <;> rfl

/-- A pass does not move the tail. -/
theorem scheduler_size (s : State) (status : Nat) :
    (s.scheduler status).waitingQueue.size = s.waitingQueue.size := by
  have dispatched : (s.scheduler status).waitingQueue = (s.scans.settle status).waitingQueue :=
    (s.scans.settle status).dispatch_queues.1
  have scanned : s.scans.waitingQueue.size = s.createIdle.sleepScan.waitingQueue.size := by
    unfold scans waitScan
    rw [waitScanFrom_size]
  rw [dispatched, settle_waitingQueue, scanned, sleepScan_waitingQueue, createIdle_waitingQueue]

theorem Ends.waitingQueue (ends : s.Ends v jump) : v.waitingQueue = s.waitingQueue := by
  cases ends with
  | compute _ computed => exact computed.waitingQueue
  | finish _ computed => exact computed.waitingQueue
  | readPark _ _ _ woken => exact (threadAwake_scanned woken).2
  | readTake _ _ _ woken => exact (threadAwake_scanned woken).2
  | sleep | release | writePark | writeTake | leave => rfl

/-- Only parking moves the tail. -/
theorem jump_size (s : State) (pending : Option Signal) (jump : Jump) :
    (s.jump pending jump).waitingQueue.size =
      match jump with
      | .park _ _ => (s.waitingQueue.size + 1) % THREAD_MAX
      | _ => s.waitingQueue.size := by
  cases found : s.jumpEntry pending jump with
  | none =>
    cases jump with
    | yield k =>
      obtain ⟨k, goes⟩ := jump_of_none found
      rw [goes]
      rfl
    | exit | sleep | park => cases found
  | some pass =>
    rw [jump_of_entry found, scheduler_size]
    cases jump with
    | yield k =>
      obtain ⟨signal, _, rfl⟩ := Option.map_eq_some_iff.mp found
      rfl
    | exit | sleep | park =>
      rw [← Option.some.inj found]
      rfl

/-! ## Parking -/

/-- `write_lock` is called at one place. -/
theorem enrollJump_writePark (ran : s.enrollJump = some (v, .park .writeLock 5)) :
    s.current.env = .yield 2 := by
  unfold enrollJump at ran
  split at ran
  · dsimp only at ran
    split at ran
    · cases ran
    · obtain ⟨woken, _, ends⟩ := Option.map_eq_some_iff.mp ran
      unfold readLockJump at ends
      split at ends <;> cases ends
  · cases ran
  · cases ran
  · assumption
  · cases ran
  · cases ran

/-- Whoever parks has one time less before it. -/
theorem parks_of_body {resource : Nat} (ran : s.body = some (v, .park env resource)) :
    s.current.routine = .enroll ∧ resource ≠ 3 ∧ env.parks < s.current.env.parks := by
  cases ends_of_body ran with
  | readPark enroll setup => exact ⟨enroll, by decide, by rw [setup]; decide⟩
  | writePark enroll =>
    unfold State.body at ran
    rw [enroll] at ran
    split at ran
    · cases ran
    · exact ⟨enroll, by decide, by rw [enrollJump_writePark ran]; decide⟩

theorem LockStep.parks_le {readCount writeCount : Int}
    (lock : s.LockStep env exits queue readCount writeCount)
    (enroll : s.current.routine = .enroll) : env.parks ≤ s.current.env.parks := by
  cases lock with
  | compute sequential => exact absurd enroll sequential
  | finish | leave => exact Nat.le_refl _
  | sleep _ env => rw [env]
  | readPark _ env | readTake _ env | readResume _ env | release _ env | writePark _ env
  | writeTake _ env | writeResume _ env =>
    rw [env]
    decide

/-- A step leaves the other threads the times they may park, and takes one from whoever parks. -/
theorem Consistent.step_parks (cons : s.Consistent n) (steps : s.step pending = some t) :
    (∀ p, p ≠ 0 → (t.tcbs p).parks ≤ (s.tcbs p).parks) ∧
      (t.waitingQueue.size = s.waitingQueue.size ∨
        s.currentThread ≠ 0 ∧ (t.tcbs s.currentThread).parks < s.current.parks ∧
          t.waitingQueue.size = (s.waitingQueue.size + 1) % THREAD_MAX) := by
  obtain ⟨env, exits, queue, lock, moved⟩ := cons.step steps
  obtain ⟨v, jump, ran, jumps⟩ := body_of_step steps
  refine ⟨fun p created => ?_, ?_⟩
  · by_cases runs : p = s.currentThread
    · subst runs
      unfold Tcb.parks
      rw [moved.routine created, moved.env created, ← State.current]
      split
      · rename_i enroll
        exact lock.parks_le enroll
      · exact Nat.le_refl 0
    · have kept := moved.others p created runs
      unfold Tcb.parks
      rw [kept.routine, kept.env]
  · have size := v.jump_size pending jump
    rw [← jumps, (ends_of_body ran).waitingQueue] at size
    cases jump with
    | yield | exit | sleep => exact .inl size
    | park env' resource =>
      obtain ⟨enroll, asks, fewer⟩ := parks_of_body ran
      have created := Accounted.created_of_alive (cons.alive_of_enroll enroll)
      have found : v.jumpEntry pending (.park env' resource) =
          some (v.parking env' resource, resource) := rfl
      have enters : (v.parking env' resource).Enters n resource :=
        cons.enters (ends_of_body ran) found
      have kept := (enters.1.scheduler_kept enters.2).tcb s.currentThread created
      have current : v.currentThread = s.currentThread := (stirs_of_body ran).globals.1
      have resumes : ((v.parking env' resource).tcbs s.currentThread).env = env' := by
        have own : (v.parking env' resource).tcbs v.currentThread =
            { v.current with env := env', waitingFor := resource } := Function.update_self ..
        rw [← current, own]
      have own : (t.tcbs s.currentThread).env = env' := by
        rw [jumps, jump_of_entry found, kept.env, exited, if_neg asks, resumes]
      refine .inr ⟨created, ?_, size⟩
      unfold Tcb.parks
      rw [moved.routine created, if_pos enroll, if_pos enroll, own]
      exact fewer

end State

open State

variable {timeSlice qP qS : Int} {specs : List Spec} {s : State}
  {guard : State → Option Signal → Prop}

/-- The number of threads of the command line that run `enroll`. -/
def enrolls (specs : List Spec) : Nat := specs.countP fun spec => spec.routine = .enroll

theorem sum_parks (specs : List Spec) :
    (specs.map fun spec => if spec.routine = .enroll then 2 else 0).sum = 2 * enrolls specs := by
  induction specs with
  | nil => rfl
  | cons spec rest ih =>
    unfold enrolls at ih ⊢
    rw [List.map_cons, List.sum_cons, ih, List.countP_cons]
    simp only [decide_eq_true_eq]
    split <;> omega

/-- A fresh thread parks twice at most. -/
theorem start_parksLeft (timeSlice qP qS : Int) (few : specs.length < THREAD_MAX) :
    (start timeSlice qP qS specs).parksLeft specs.length = 2 * enrolls specs := by
  have fresh : (List.range' 1 specs.length).map
      (fun p => ((start timeSlice qP qS specs).tcbs p).parks) =
      specs.map fun spec => if spec.routine = .enroll then 2 else 0 := by
    refine List.ext_getElem (by simp) fun j inside within => ?_
    rw [List.length_map] at within
    have named : specs[j]? = some specs[j] := List.getElem?_eq_getElem within
    obtain ⟨routine, _, setup, _⟩ := spawnThread_own (blank timeSlice qP qS) 1 specs named
    have kept := (start_after timeSlice qP qS few).kept.tcb (1 + j) (by omega)
    simp only [List.getElem_map, List.getElem_range', Nat.one_mul]
    unfold Tcb.parks
    rw [kept.routine, kept.env, routine, setup]
    rfl
  unfold parksLeft
  rw [fresh, sum_parks]

theorem spawnThread_waitingQueue (s : State) (id : Nat) (specs : List Spec) :
    (spawnThread s id specs).waitingQueue = s.waitingQueue := by
  induction specs generalizing s id with
  | nil => rfl
  | cons spec rest ih => exact ih (s.threadSetup spec.routine id spec.args) (id + 1)

/-- The tail of the waiting queue counts the times the threads have parked. -/
theorem reach_parksLeft (few : specs.length < THREAD_MAX)
    (reached : (machine timeSlice qP qS specs).Reach guard s) :
    s.waitingQueue.size + s.parksLeft specs.length ≤ 2 * enrolls specs := by
  refine reached.invariant
    (fun s => s.waitingQueue.size + s.parksLeft specs.length ≤ 2 * enrolls specs) ?_ ?_
  · intro state initial
    have same : state = start timeSlice qP qS specs := initial
    rw [same, start_parksLeft timeSlice qP qS few, start, scheduler_size,
      spawnThread_waitingQueue]
    exact Nat.le_of_eq (Nat.zero_add _)
  · intro state pending next prior bound _ steps
    have cons := reach_consistent few prior
    obtain ⟨fewer, tail⟩ := cons.step_parks steps
    have le : ∀ p ∈ List.range' 1 specs.length,
        (next.tcbs p).parks ≤ (state.tcbs p).parks := by
      intro p member
      rw [List.mem_range'_1] at member
      exact fewer p (by omega)
    rcases tail with same | ⟨created, parked, moved⟩
    · have total : next.parksLeft specs.length ≤ state.parksLeft specs.length :=
        List.sum_le_sum le
      omega
    · have alive := cons.running.resolve_left created
      have total : next.parksLeft specs.length < state.parksLeft specs.length := by
        refine List.sum_lt_sum _ _ le ⟨state.currentThread, ?_, parked⟩
        rw [List.mem_range'_1]
        have lower := alive.1
        have upper := alive.2.1
        omega
      have mod := Nat.mod_le (state.waitingQueue.size + 1) THREAD_MAX
      omega

/-- With at most 49 threads that run `enroll` none parks in the last place of the array. -/
theorem reach_parksInside (few : specs.length < THREAD_MAX)
    (room : 2 * enrolls specs < THREAD_MAX)
    (reached : (machine timeSlice qP qS specs).Reach guard s) :
    (machine timeSlice qP qS specs).Reach parksInside s := by
  induction reached with
  | initial valid => exact .initial valid
  | @step state pending next prior _ transition ih =>
    refine .step ih (fun parks last => ?_) transition
    have cons := reach_consistent few prior
    have bound := reach_parksLeft few prior
    obtain ⟨lower, upper, _⟩ := cons.alive_of_enroll parks.1
    have mine : 0 < state.current.parks := by
      unfold Tcb.parks
      rw [if_pos parks.1]
      rcases parks.2 with ⟨env, _⟩ | ⟨env, _⟩ <;> rw [env] <;> decide
    have all : state.current.parks ≤ state.parksLeft specs.length := by
      refine List.single_le_sum (fun _ _ => Nat.zero_le _) _ (List.mem_map.mpr ?_)
      refine ⟨state.currentThread, ?_, rfl⟩
      rw [List.mem_range'_1]
      omega
    omega

end NTUSP.Threads
