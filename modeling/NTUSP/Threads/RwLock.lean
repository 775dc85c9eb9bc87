import NTUSP.Threads.Conservation

/-!
# The reader/writer lock

A thread that takes a lock directly is counted, a thread that was parked and is resumed
by the scheduler is not: it comes back behind the branch that counts. As long as no
parked thread is resumed, `read_count` and `write_count` are the numbers of threads
inside and a writer is alone. One resumed writer is enough to let two writers in.
-/

namespace NTUSP.Threads

open NTUSP.Library

namespace State

variable {n : Nat} {s t : State} {pending : Option Signal} {env : Env} {exits : Bool}
  {queue : TcbQueue}

/-- The thread is inside `enroll` with this resume point. -/
def resumesAt (env : Env) (s : State) (p : Nat) : Bool :=
  decide ((s.tcbs p).routine = .enroll ∧ (s.tcbs p).env = env ∧ (s.tcbs p).freed = false)

/-- Past `read_lock` and not yet at its `read_unlock`. -/
def reading (s : State) (p : Nat) : Bool := s.resumesAt (.yield 1) p

/-- Past `write_lock` and not yet at its `write_unlock`. -/
def writing (s : State) (p : Nat) : Bool := s.resumesAt (.yield 3) p

/-- A writer is alone. -/
def Exclusive (n : Nat) (s : State) : Prop :=
  ∀ p q, 1 ≤ p → p ≤ n → 1 ≤ q → q ≤ n → p ≠ q → s.writing p = true →
    s.writing q = false ∧ s.reading q = false

/-- The threads with a resume point. -/
def holders (n : Nat) (env : Env) (s : State) : Nat :=
  (List.range' 1 n).countP (s.resumesAt env)

theorem mem_threads {n p : Nat} : p ∈ List.range' 1 n ↔ 1 ≤ p ∧ p ≤ n := by
  rw [List.mem_range'_1]
  omega

/-- A step moves at most the running thread from one resume point to another. -/
theorem Moved.holders (moved : s.Moved n t env exits queue) (cons : s.Consistent n) (point : Env) :
    t.holders n point + (decide (s.current.routine = .enroll ∧ s.current.env = point)).toNat =
      s.holders n point +
        (decide (s.current.routine = .enroll ∧ env = point ∧ exits = false)).toNat := by
  have kept : ∀ p ∈ List.range' 1 n, p ≠ s.currentThread →
      t.resumesAt point p = s.resumesAt point p := by
    intro p member other
    have same := moved.others p (by have bounds := mem_threads.mp member; omega) other
    unfold resumesAt
    rw [same.routine, same.env, same.freed]
  rcases cons.running with idle | alive
  · have routine : s.current.routine = .idle := by
      unfold current
      rw [idle]
      exact cons.accounted.idle
    have same : t.holders n point = s.holders n point := by
      refine List.countP_congr fun p member => ?_
      have bounds := mem_threads.mp member
      rw [kept p member (by omega)]
    simp [same, routine]
  · have created := Accounted.created_of_alive alive
    have changed := Counting.countP_change s.currentThread List.nodup_range'
      (mem_threads.mpr ⟨alive.1, alive.2.1⟩) kept
    have before : s.resumesAt point s.currentThread =
        decide (s.current.routine = .enroll ∧ s.current.env = point) := by
      unfold resumesAt current
      simp [alive.2.2]
    have after : t.resumesAt point s.currentThread =
        decide (s.current.routine = .enroll ∧ env = point ∧ exits = false) := by
      unfold resumesAt
      rw [moved.routine created, moved.env created, moved.freed created]
    rw [before, after] at changed
    exact changed

/-- A resume point of `enroll`. -/
def Points (n : Nat) (s : State) : Prop :=
  ∀ p, 1 ≤ p → p ≤ n → (s.tcbs p).routine = .enroll → ∀ k, (s.tcbs p).env = .yield k →
    k = 1 ∨ k = 2 ∨ k = 3

/-- No step leaves an `enroll` thread at another yield. -/
theorem Points.step {readCount writeCount : Int} (points : s.Points n)
    (lock : s.LockStep env exits queue readCount writeCount)
    (moved : s.Moved n t env exits queue) : t.Points n := by
  intro p lower upper routine k resume
  by_cases runs : p = s.currentThread
  · subst runs
    have created : s.currentThread ≠ 0 := by omega
    rw [moved.routine created] at routine
    rw [moved.env created] at resume
    have before := points _ lower upper routine
    cases lock with
    | compute sequential => exact absurd routine sequential
    | finish sequential => exact absurd routine sequential
    | leave => exact before k resume
    | readTake | readResume | release | writeTake | writeResume =>
      cases resume
      decide
    | sleep | readPark | writePark => cases resume
  · have same := moved.others p (by omega) runs
    rw [same.routine] at routine
    rw [same.env] at resume
    exact points p lower upper routine k resume

/-- The yield the running thread comes from is one of the three of `enroll`. -/
theorem Points.current {k : Nat} (points : s.Points n) (cons : s.Consistent n)
    (enroll : s.current.routine = .enroll) (resume : s.current.env = .yield k) :
    k = 1 ∨ k = 2 ∨ k = 3 := by
  have alive := cons.alive_of_enroll enroll
  exact points _ alive.1 alive.2.1 enroll k resume

/-- The counts of the lock are the numbers of threads inside. -/
structure Counted (n : Nat) (s : State) : Prop where
  points : s.Points n
  readers : s.readCount = s.holders n (.yield 1)
  writers : s.writeCount = s.holders n (.yield 3)
  binary : s.writeCount = 0 ∨ s.writeCount = 1

/-- Where the counts are right a writer is alone. -/
theorem Counted.exclusive (counted : s.Counted n) (cons : s.Consistent n) : s.Exclusive n := by
  intro p q lower upper qLower qUpper differ writes
  have pIn : p ∈ List.range' 1 n := mem_threads.mpr ⟨lower, upper⟩
  have qIn : q ∈ List.range' 1 n := mem_threads.mpr ⟨qLower, qUpper⟩
  have positive : 0 < s.holders n (.yield 3) := List.countP_pos_iff.mpr ⟨p, pIn, writes⟩
  have writers := counted.writers
  have binary := counted.binary
  have one : s.holders n (.yield 3) = 1 := by omega
  have unread : s.holders n (.yield 1) = 0 := by
    have none_reads := cons.exclusive (by omega)
    have readers := counted.readers
    omega
  constructor
  · rw [← Bool.not_eq_true]
    exact fun also => differ (Counting.eq_of_countP_eq_one one pIn qIn writes also)
  · rw [← Bool.not_eq_true]
    exact List.countP_eq_zero.mp unread q qIn

/-- A step that resumes no parked thread keeps the counts right. -/
theorem Counted.step (counted : s.Counted n) (cons : s.Consistent n)
    (unparked : s.current.env ≠ .readLock ∧ s.current.env ≠ .writeLock)
    (lock : s.LockStep env exits queue t.readCount t.writeCount)
    (moved : s.Moved n t env exits queue) : t.Counted n := by
  have readers := counted.readers
  have writers := counted.writers
  have binary := counted.binary
  have reads := moved.holders cons (.yield 1)
  have writes := moved.holders cons (.yield 3)
  have points := counted.points.step lock moved
  suffices counts : t.readCount = t.holders n (.yield 1) ∧ t.writeCount = t.holders n (.yield 3) ∧
      (t.writeCount = 0 ∨ t.writeCount = 1) from
    { points := points, readers := counts.1, writers := counts.2.1, binary := counts.2.2 }
  generalize t.readCount = readCount at lock ⊢
  generalize t.writeCount = writeCount at lock ⊢
  cases lock with
  | compute sequential =>
    simp [sequential] at reads writes
    omega
  | finish sequential =>
    simp [sequential] at reads writes
    omega
  | sleep enroll env first =>
    simp [env] at reads writes
    omega
  | readPark enroll env awake busy =>
    simp [env] at reads writes
    omega
  | readTake enroll env free =>
    simp [enroll, env] at reads writes
    omega
  | readResume enroll env => exact absurd env unparked.1
  | release enroll env =>
    simp [enroll, env] at reads writes
    rw [if_pos (by omega)]
    omega
  | writePark enroll env busy =>
    simp [env] at reads writes
    omega
  | writeTake enroll env unwritten unread =>
    simp [enroll, env] at reads writes
    omega
  | writeResume enroll env => exact absurd env unparked.2
  | leave enroll env last =>
    have inside := counted.points.current cons enroll env
    obtain rfl : _ = 3 := (inside.resolve_left last.1).resolve_left last.2
    simp [enroll, env] at reads writes
    rw [if_pos (by omega)]
    omega

/-- At the first dispatch nobody is inside. -/
theorem start_counted (timeSlice qP qS : Int) {specs : List Spec}
    (few : specs.length < THREAD_MAX) : (start timeSlice qP qS specs).Counted specs.length := by
  have kept := (start_after timeSlice qP qS few).kept
  have spawned := spawned timeSlice qP qS few
  have setup : ∀ p, 1 ≤ p → p ≤ specs.length →
      ((start timeSlice qP qS specs).tcbs p).env = .setup := by
    intro p lower upper
    rw [(kept.tcb p (by omega)).env]
    exact spawned.setup p lower upper
  have nobody : ∀ k, (start timeSlice qP qS specs).holders specs.length (.yield k) = 0 := by
    intro k
    refine List.countP_eq_zero.mpr fun p member => ?_
    obtain ⟨lower, upper⟩ := mem_threads.mp member
    simp [resumesAt, setup p lower upper]
  refine
    { points := fun p lower upper _ k resume => ?_
      readers := by rw [kept.readCount, spawned.unread, nobody]; rfl
      writers := by rw [kept.writeCount, spawned.unwritten, nobody]; rfl
      binary := .inl (kept.writeCount.trans spawned.unwritten) }
  rw [setup p lower upper] at resume
  cases resume

/-- Resuming a parked thread puts one more thread inside without counting it. -/
theorem Counted.not_step (counted : s.Counted n) (cons : s.Consistent n)
    (parked : s.current.env = .readLock ∨ s.current.env = .writeLock)
    (enroll : s.current.routine = .enroll)
    (lock : s.LockStep env exits queue t.readCount t.writeCount)
    (moved : s.Moved n t env exits queue) : ¬ t.Counted n := by
  intro after
  have reads := moved.holders cons (.yield 1)
  have writes := moved.holders cons (.yield 3)
  have readers := counted.readers
  have writers := counted.writers
  have readersAfter := after.readers
  have writersAfter := after.writers
  generalize t.readCount = readCount at lock readersAfter
  generalize t.writeCount = writeCount at lock writersAfter
  cases lock with
  | readResume _ env =>
    simp [enroll, env] at reads
    omega
  | writeResume _ env =>
    simp [enroll, env] at writes
    omega
  | compute sequential => exact sequential enroll
  | finish sequential => exact sequential enroll
  | sleep _ env | readPark _ env | readTake _ env | release _ env | writePark _ env
  | writeTake _ env | leave _ env =>
    rw [env] at parked
    rcases parked with parked | parked <;> cases parked

/-- No thread that was parked in `read_lock` or `write_lock` is resumed by the step. -/
def resumesNoParked (s : State) (_ : Option Signal) : Prop :=
  s.current.env ≠ .readLock ∧ s.current.env ≠ .writeLock

instance (s : State) (pending : Option Signal) : Decidable (s.resumesNoParked pending) := by
  unfold resumesNoParked
  infer_instance

end State

open State

variable {timeSlice qP qS : Int} {specs : List Spec} {s : State}

/-- In every run that resumes no parked thread the lock counts are right. -/
theorem reach_counted (few : specs.length < THREAD_MAX)
    (reached : (machine timeSlice qP qS specs).Reach resumesNoParked s) :
    s.Counted specs.length := by
  refine reached.invariant _ ?_ ?_
  · intro state initial
    have same : state = start timeSlice qP qS specs := initial
    rw [same]
    exact start_counted timeSlice qP qS few
  · intro state pending next prior counted unparked steps
    have cons := reach_consistent few prior
    obtain ⟨_, _, _, lock, moved⟩ := cons.step steps
    exact counted.step cons unparked lock moved

/-- In every run that resumes no parked thread a writer is alone. -/
theorem exclusive_of_resumesNoParked (few : specs.length < THREAD_MAX)
    (reached : (machine timeSlice qP qS specs).Reach resumesNoParked s) :
    s.Exclusive specs.length :=
  (reach_counted few reached).exclusive (reach_consistent few reached)

/-- Two threads in `enroll`: 1 is preempted inside the write lock, and 2 has parked. -/
theorem exclusive_one_writer :
    ∃ s, (machine 1 1 1 (List.replicate 2 (.enroll 1 1 0 0))).Reach resumesNoParked s ∧
      s.writing 1 = true ∧ s.waitingQueue.contents = [2] ∧ s.Exclusive 2 := by
  have ran : ((machine 1 1 1 (List.replicate 2 (.enroll 1 1 0 0))).exec
      (fun s pending => resumesNoParked s pending)
      (start 1 1 1 (List.replicate 2 (.enroll 1 1 0 0)))
      [none, none, none, none, some .SIGTSTP, none]).map
        (fun s => (s.writing 1, s.waitingQueue.contents)) = some (true, [2]) := by
    decide +kernel
  obtain ⟨s, reached, seen⟩ := Machine.Reach.of_ran rfl ran
  obtain ⟨writes, waits⟩ := Prod.mk.inj seen
  exact ⟨s, reached, writes, waits, exclusive_of_resumesNoParked (by decide) reached⟩

/-- Three threads in `enroll`: 1 takes the write lock and 2 and 3 park, 1 exits and the scan
releases both, and both go on inside the write lock. -/
theorem three_enroll_run :
    ∃ s, (machine 1 1 1 (List.replicate 3 (.enroll 1 1 0 0))).Reach Machine.anyStep s ∧
      s.writing 2 = true ∧ s.writing 3 = true := by
  have ran : ((machine 1 1 1 (List.replicate 3 (.enroll 1 1 0 0))).exec (fun _ _ => true)
      (start 1 1 1 (List.replicate 3 (.enroll 1 1 0 0)))
      [none, none, none, some .SIGTSTP, none, some .SIGTSTP, none, some .SIGTSTP, none,
        some .SIGTSTP, none, none, none, some .SIGTSTP, none]).map
          (fun s => (s.writing 2, s.writing 3)) = some (true, true) := by
    decide +kernel
  obtain ⟨s, runs, both⟩ := Option.map_eq_some_iff.mp ran
  obtain ⟨second, third⟩ := Prod.mk.inj both
  exact ⟨s, (Machine.Reach.initial rfl).exec (fun _ _ _ => trivial) runs, second, third⟩

/-- The second and the third of them hold the write lock at once. -/
theorem two_writers_reachable :
    ∃ s, (machine 1 1 1 (List.replicate 3 (.enroll 1 1 0 0))).Reach Machine.anyStep s ∧
      s.writing 2 = true ∧ s.writing 3 = true ∧ ¬ s.Exclusive 3 := by
  obtain ⟨s, reached, second, third⟩ := three_enroll_run
  refine ⟨s, reached, second, third, ?_⟩
  intro exclusive
  have alone := (exclusive 2 3 (by decide) (by decide) (by decide) (by decide) (by decide) second).1
  rw [third] at alone
  cases alone

end NTUSP.Threads
