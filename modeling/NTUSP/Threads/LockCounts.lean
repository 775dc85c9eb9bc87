import NTUSP.Threads.RwLock

/-!
# The lock comes free again

Once a parked thread is resumed, the counts and the threads inside disagree. But a thread
that got in uncounted can only take a count away when it leaves, so the counts never exceed
the threads inside, and with nobody inside both are 0.
-/

namespace NTUSP.Threads

open NTUSP.Library

namespace State

variable {n : Nat} {s t : State} {env : Env} {exits : Bool} {queue : TcbQueue}

/-- The counts are counts, and not above the numbers of threads inside. -/
structure Covered (n : Nat) (s : State) : Prop where
  points : s.Points n
  unsigned : 0 ≤ s.readCount
  binary : s.writeCount = 0 ∨ s.writeCount = 1
  readers : s.readCount ≤ s.holders n (.yield 1)
  writers : s.writeCount ≤ s.holders n (.yield 3)

/-- Right counts are covered. -/
theorem Counted.covered (counted : s.Counted n) : s.Covered n where
  points := counted.points
  unsigned := by
    rw [counted.readers]
    exact Int.natCast_nonneg _
  binary := counted.binary
  readers := Int.le_of_eq counted.readers
  writers := Int.le_of_eq counted.writers

/-- Every step keeps the counts covered, also one that resumes a parked thread. -/
theorem Covered.step (covered : s.Covered n) (cons : s.Consistent n)
    (lock : s.LockStep env exits queue t.readCount t.writeCount)
    (moved : s.Moved n t env exits queue) : t.Covered n := by
  obtain ⟨points, unsigned, binary, readers, writers⟩ := covered
  have reads := moved.holders cons (.yield 1)
  have writes := moved.holders cons (.yield 3)
  have inside := fun enroll k => points.current (k := k) cons enroll
  suffices counts : 0 ≤ t.readCount ∧ (t.writeCount = 0 ∨ t.writeCount = 1) ∧
      t.readCount ≤ t.holders n (.yield 1) ∧ t.writeCount ≤ t.holders n (.yield 3) from
    { points := points.step lock moved
      unsigned := counts.1
      binary := counts.2.1
      readers := counts.2.2.1
      writers := counts.2.2.2 }
  generalize t.readCount = readCount at lock ⊢
  generalize t.writeCount = writeCount at lock ⊢
  cases lock with
  | compute sequential =>
    simp [sequential] at reads writes
    omega
  | finish sequential =>
    simp [sequential] at reads writes
    omega
  | sleep enroll env first =>
    simp [env] at reads writes
    omega
  | readPark enroll env awake busy =>
    simp [env] at reads writes
    omega
  | readTake enroll env free =>
    simp [enroll, env] at reads writes
    omega
  | readResume enroll env =>
    simp [enroll, env] at reads writes
    omega
  | release enroll env =>
    -- one reader fewer, and one count fewer unless there is none
    simp [enroll, env] at reads writes
    split <;> omega
  | writePark enroll env busy =>
    simp [env] at reads writes
    omega
  | writeTake enroll env unwritten unread =>
    simp [enroll, env] at reads writes
    omega
  | writeResume enroll env =>
    simp [enroll, env] at reads writes
    omega
  | leave enroll env last =>
    -- whoever leaves the write lock leaves it free
    obtain rfl : _ = 3 := ((inside enroll _ env).resolve_left last.1).resolve_left last.2
    simp [enroll, env] at reads writes
    split <;> omega

/-- The lock is held by nobody who is not inside. -/
structure NoLeak (n : Nat) (s : State) : Prop where
  unsigned : 0 ≤ s.readCount
  binary : s.writeCount = 0 ∨ s.writeCount = 1
  apart : s.readCount = 0 ∨ s.writeCount = 0
  readers : s.readCount ≤ (List.range' 1 n).countP s.reading
  writer : s.writeCount = 1 → ∃ p, 1 ≤ p ∧ p ≤ n ∧ s.writing p = true
  free : (∀ p, 1 ≤ p → p ≤ n → s.reading p = false ∧ s.writing p = false) →
    s.readCount = 0 ∧ s.writeCount = 0
  exited : (∀ p, 1 ≤ p → p ≤ n → (s.tcbs p).freed = true) →
    s.readCount = 0 ∧ s.writeCount = 0

/-- With nobody inside, covered counts are 0. -/
theorem Covered.free (covered : s.Covered n)
    (nobody : ∀ p, 1 ≤ p → p ≤ n → s.reading p = false ∧ s.writing p = false) :
    s.readCount = 0 ∧ s.writeCount = 0 := by
  have outside : s.holders n (.yield 1) = 0 ∧ s.holders n (.yield 3) = 0 := by
    constructor
    all_goals
      refine List.countP_eq_zero.mpr fun p member => ?_
      obtain ⟨lower, upper⟩ := mem_threads.mp member
    · exact Bool.eq_false_iff.mp (nobody p lower upper).1
    · exact Bool.eq_false_iff.mp (nobody p lower upper).2
  obtain ⟨_, unsigned, binary, readers, writers⟩ := covered
  omega

/-- An exited thread is not inside. -/
theorem resumesAt_exited (point : Env) {p : Nat} (exited : (s.tcbs p).freed = true) :
    s.resumesAt point p = false := by
  simp [resumesAt, exited]

theorem Covered.noLeak (covered : s.Covered n) (cons : s.Consistent n) : s.NoLeak n where
  unsigned := covered.unsigned
  binary := covered.binary
  apart := by
    by_cases unwritten : s.writeCount = 0
    · exact .inr unwritten
    · exact .inl (cons.exclusive unwritten)
  readers := covered.readers
  writer writes := by
    have writers := covered.writers
    have positive : 0 < s.holders n (.yield 3) := by omega
    obtain ⟨p, member, inside⟩ := List.countP_pos_iff.mp positive
    obtain ⟨lower, upper⟩ := mem_threads.mp member
    exact ⟨p, lower, upper, inside⟩
  free nobody := covered.free nobody
  exited gone := covered.free fun p lower upper =>
    ⟨resumesAt_exited _ (gone p lower upper), resumesAt_exited _ (gone p lower upper)⟩

end State

open State

variable {timeSlice qP qS : Int} {specs : List Spec} {s : State}

theorem reach_covered (few : specs.length < THREAD_MAX)
    (reached : (machine timeSlice qP qS specs).Reach Machine.anyStep s) :
    s.Covered specs.length := by
  refine reached.invariant _ ?_ ?_
  · intro state initial
    have same : state = start timeSlice qP qS specs := initial
    rw [same]
    exact (start_counted timeSlice qP qS few).covered
  · intro state pending next prior covered _ steps
    have cons := reach_consistent few prior
    obtain ⟨_, _, _, lock, moved⟩ := cons.step steps
    exact covered.step cons lock moved

/-- In every run the lock is held by nobody who is not inside, so it comes free when the last
thread has left. -/
theorem lock_not_leaked (few : specs.length < THREAD_MAX)
    (reached : (machine timeSlice qP qS specs).Reach Machine.anyStep s) :
    s.NoLeak specs.length :=
  (reach_covered few reached).noLeak (reach_consistent few reached)

/-- Three threads, of which two got in uncounted. -/
theorem lock_not_leaked_two_writers :
    ∃ s, (machine 1 1 1 (List.replicate 3 (.enroll 1 1 0 0))).Reach Machine.anyStep s ∧
      s.writing 2 = true ∧ s.writing 3 = true ∧ s.NoLeak 3 := by
  obtain ⟨s, reached, second, third⟩ := three_enroll_run
  exact ⟨s, reached, second, third, lock_not_leaked (by decide) reached⟩

end NTUSP.Threads
