import NTUSP.Threads.LockCounts

/-!
# Threads left behind in the waiting queue

The scheduler returns when nobody is ready and nobody sleeps. Then all unfinished
threads are parked, so nobody is inside the lock, the counts are zero, and the scan
would have released every waiter. It reads no waiter once `size` has wrapped round,
and then it never does again. The runs in which no thread parks in the last place of
the array are exactly those that cannot come to that.
-/

namespace NTUSP.Threads

open NTUSP.Library

namespace State

variable {n : Nat} {s t : State} {env : Env} {exits : Bool} {queue : TcbQueue}

/-- If only waiters are unfinished, nobody is inside and the counts are zero. -/
theorem Covered.counts_eq_zero (covered : s.Covered n) (cons : s.Consistent n)
    (all : ∀ p, s.Alive n p → p ∈ s.waitingQueue.contents) :
    s.readCount = 0 ∧ s.writeCount = 0 := by
  have outside : ∀ k, s.holders n (.yield k) = 0 := by
    intro k
    refine List.countP_eq_zero.mpr fun p member holds => ?_
    obtain ⟨lower, upper⟩ := mem_threads.mp member
    obtain ⟨_, resume, unfinished⟩ := of_decide_eq_true holds
    rcases cons.parked p (all p ⟨lower, upper, unfinished⟩) with ⟨_, reads⟩ | ⟨_, writes⟩
    · rw [reads] at resume
      cases resume
    · rw [writes] at resume
      cases resume
  obtain ⟨_, unsigned, binary, readers, writers⟩ := covered
  rw [outside] at readers writers
  omega

/-- Every created thread has executed `thread_exit` and no waiter is listed. -/
def AllExited (n : Nat) (s : State) : Prop :=
  (∀ p, 1 ≤ p → p ≤ n → (s.tcbs p).freed = true) ∧ s.waitingQueue.contents = []

/-- If an unwrapped queue was scanned before the scheduler returned, everybody has exited. -/
theorem Covered.allExited (covered : s.Covered n) (cons : s.Consistent n)
    (ordered : ¬ queue.Wrapped)
    (finished : (∀ p, s.Alive n p → p ∈ s.waitingQueue.contents) ∧
      (¬ queue.Wrapped → s.writeCount = 0 → s.readCount = 0 → s.waitingQueue.contents = [])) :
    s.AllExited n := by
  obtain ⟨all, drained⟩ := finished
  obtain ⟨unread, unwritten⟩ := covered.counts_eq_zero cons all
  have empty := drained ordered unwritten unread
  refine ⟨fun p lower upper => ?_, empty⟩
  rw [← Bool.not_eq_false]
  intro unfinished
  have member := all p ⟨lower, upper, unfinished⟩
  simp [empty] at member

/-- A wrapped waiting queue lists somebody who has not exited. -/
theorem Consistent.not_allExited (cons : s.Consistent n) (wrapped : s.waitingQueue.Wrapped) :
    ¬ s.AllExited n := fun exited =>
  TcbQueue.contents_ne_nil_of_wrapped cons.accounted.waiting wrapped exited.2

/-- The running thread is about to wait for the lock. -/
def parks (s : State) : Prop :=
  s.current.routine = .enroll ∧
    ((s.current.env = .setup ∧ s.current.keepgo = true ∧ s.writeCount ≠ 0) ∨
      (s.current.env = .yield 2 ∧ (s.writeCount ≠ 0 ∨ s.readCount ≠ 0)))

instance (s : State) : Decidable s.parks := by
  unfold parks
  infer_instance

/-- The step does not park a thread in the last place of `waiting_queue.arr`. -/
def parksInside (s : State) (_ : Option Signal) : Prop :=
  s.parks → s.waitingQueue.size + 1 ≠ THREAD_MAX

instance (s : State) (pending : Option Signal) : Decidable (s.parksInside pending) := by
  unfold parksInside
  infer_instance

/-- The queue the scan reads: as before the step, or with the running thread behind. -/
theorem LockStep.queue_cases {readCount writeCount : Int}
    (lock : s.LockStep env exits queue readCount writeCount) :
    (¬ s.parks ∧ queue = s.waitingQueue) ∨
      (s.parks ∧ queue = s.waitingQueue.enqueue s.currentThread) := by
  cases lock with
  | readPark enroll env awake busy => exact .inr ⟨⟨enroll, .inl ⟨env, awake, busy⟩⟩, rfl⟩
  | writePark enroll env busy => exact .inr ⟨⟨enroll, .inr ⟨env, busy⟩⟩, rfl⟩
  | compute sequential | finish sequential =>
    exact .inl ⟨fun parks => sequential parks.1, rfl⟩
  | readTake enroll env free =>
    refine .inl ⟨fun parks => ?_, rfl⟩
    rcases parks.2 with ⟨_, _, busy⟩ | ⟨resume, _⟩
    · exact busy free
    · rw [env] at resume
      cases resume
  | writeTake enroll env unwritten unread =>
    refine .inl ⟨fun parks => ?_, rfl⟩
    rcases parks.2 with ⟨resume, _⟩ | ⟨_, busy⟩
    · rw [env] at resume
      cases resume
    · exact busy.elim (· unwritten) (· unread)
  | sleep enroll env first =>
    refine .inl ⟨fun parks => ?_, rfl⟩
    rcases parks.2 with ⟨_, awake, _⟩ | ⟨resume, _⟩
    · rw [first] at awake
      cases awake
    · rw [env] at resume
      cases resume
  | readResume enroll env | release enroll env | writeResume enroll env =>
    refine .inl ⟨fun parks => ?_, rfl⟩
    rcases parks.2 with ⟨resume, _⟩ | ⟨resume, _⟩ <;> rw [env] at resume <;> cases resume
  | leave enroll env last =>
    refine .inl ⟨fun parks => ?_, rfl⟩
    rcases parks.2 with ⟨resume, _⟩ | ⟨resume, _⟩
    · rw [env] at resume
      cases resume
    · rw [env] at resume
      cases resume
      exact last.2 rfl

/-- A step that parks nobody in the last place leaves an unwrapped queue unwrapped. -/
theorem LockStep.unwrapped {readCount writeCount : Int} (cons : s.Consistent n)
    (lock : s.LockStep env exits queue readCount writeCount) {pending : Option Signal}
    (inside : s.parksInside pending) (ordered : ¬ s.waitingQueue.Wrapped) : ¬ queue.Wrapped := by
  rcases lock.queue_cases with ⟨_, same⟩ | ⟨parks, pushed⟩
  · rwa [same]
  · rw [pushed, TcbQueue.enqueue_wrapped cons.accounted.waiting _
      (cons.waiting_room (cons.alive_of_enroll parks.1))]
    exact fun either => either.elim ordered (inside parks)

/-- A wrapped queue stays wrapped, and parking in the last place wraps it. -/
theorem LockStep.wrapped {readCount writeCount : Int} (cons : s.Consistent n)
    (lock : s.LockStep env exits queue readCount writeCount) (pending : Option Signal)
    (wraps : s.waitingQueue.Wrapped ∨ ¬ s.parksInside pending) : queue.Wrapped := by
  rcases lock.queue_cases with ⟨idle, same⟩ | ⟨parks, pushed⟩
  · rw [same]
    exact wraps.resolve_right fun outside => outside fun parks => absurd parks idle
  · rw [pushed, TcbQueue.enqueue_wrapped cons.accounted.waiting _
      (cons.waiting_room (cons.alive_of_enroll parks.1))]
    refine wraps.imp_right fun outside => ?_
    rw [← Classical.not_not (a := s.waitingQueue.size + 1 = THREAD_MAX)]
    exact fun inside => outside fun _ => inside

theorem Moved.unwrapped (moved : s.Moved n t env exits queue) (ordered : ¬ queue.Wrapped) :
    ¬ t.waitingQueue.Wrapped := by
  rcases moved.waiting with same | ⟨_, unwrapped, _⟩
  · rwa [same]
  · exact unwrapped

theorem Moved.wrapped (moved : s.Moved n t env exits queue) (wrapped : queue.Wrapped) :
    t.waitingQueue.Wrapped := by
  rcases moved.waiting with same | ⟨ordered, _⟩
  · rwa [same]
  · exact absurd wrapped ordered

end State

open State

variable {timeSlice qP qS : Int} {specs : List Spec} {s t u : State}
  {guard : State → Option Signal → Prop}

/-- In a run that parks nobody in the last place, the waiting queue never wraps and the
scheduler returns only when everybody has exited. -/
theorem reach_unwrapped (few : specs.length < THREAD_MAX)
    (reached : (machine timeSlice qP qS specs).Reach parksInside s) :
    ¬ s.waitingQueue.Wrapped ∧ (s.returned = true → s.AllExited specs.length) := by
  refine reached.invariant
    (fun s => ¬ s.waitingQueue.Wrapped ∧ (s.returned = true → s.AllExited specs.length)) ?_ ?_
  · intro state initial
    have same : state = start timeSlice qP qS specs := initial
    rw [same]
    have after := start_after timeSlice qP qS few
    have spawned := spawned timeSlice qP qS few
    have ordered : ¬ (spawnThread (blank timeSlice qP qS) 1 specs).waitingQueue.Wrapped := by
      intro wrapped
      exact TcbQueue.contents_ne_nil_of_wrapped spawned.waiting wrapped spawned.nobody
    refine ⟨?_, fun returned => ?_⟩
    · rcases after.waiting with same | ⟨_, unwrapped, _⟩
      · rwa [same]
      · exact unwrapped
    · have covered := (start_counted timeSlice qP qS few).covered
      exact covered.allExited after.consistent ordered (after.finished returned)
  · intro state pending next prior held inside steps
    have cons := reach_consistent few prior
    obtain ⟨_, _, _, lock, moved⟩ := cons.step steps
    have ordered := lock.unwrapped cons inside held.1
    refine ⟨moved.unwrapped ordered, fun returned => ?_⟩
    have later := prior.step inside steps
    have covered := reach_covered few (later.mono fun _ _ _ => trivial)
    exact covered.allExited moved.consistent ordered (moved.finished returned)

/-- Once a thread has parked in the last place, no later return finds everybody exited. -/
theorem left_behind_of_not_parksInside (few : specs.length < THREAD_MAX)
    (reached : (machine timeSlice qP qS specs).Reach guard s) {pending : Option Signal}
    (last : ¬ s.parksInside pending) (steps : s.step pending = some t)
    (later : ((machine timeSlice qP qS specs).startAt t).Reach Machine.anyStep u) :
    ¬ u.AllExited specs.length := by
  have cons := reach_consistent few reached
  suffices held : u.Consistent specs.length ∧ u.waitingQueue.Wrapped from
    held.1.not_allExited held.2
  refine later.invariant (fun u => u.Consistent specs.length ∧ u.waitingQueue.Wrapped) ?_ ?_
  · rintro state rfl
    obtain ⟨_, _, _, lock, moved⟩ := cons.step steps
    exact ⟨moved.consistent, moved.wrapped (lock.wrapped cons pending (.inr last))⟩
  · intro state signal next _ held _ steps
    obtain ⟨_, _, _, lock, moved⟩ := held.1.step steps
    exact ⟨moved.consistent, moved.wrapped (lock.wrapped held.1 signal (.inl held.2))⟩

/-- If no step of the run parks a thread in the last place of `waiting_queue.arr`, then
when the scheduler returns every created thread has exited and nobody waits. -/
theorem all_exited_of_parksInside (few : specs.length < THREAD_MAX)
    (reached : (machine timeSlice qP qS specs).Reach parksInside s) (returned : s.returned = true) :
    (∀ p, 1 ≤ p → p ≤ specs.length → (s.tcbs p).freed = true) ∧ s.waitingQueue.contents = [] :=
  (reach_unwrapped few reached).2 returned

/-- Two threads in `enroll`: the first is preempted inside the write lock, the second parks and
is resumed, and both exit. -/
theorem all_exited_one_parks :
    ∃ s, (machine 1 1 1 (List.replicate 2 (.enroll 1 1 0 0))).Reach parksInside s ∧
      s.returned = true ∧ (∀ p, 1 ≤ p → p ≤ 2 → (s.tcbs p).freed = true) ∧
        s.waitingQueue.contents = [] := by
  have ran : ((machine 1 1 1 (List.replicate 2 (.enroll 1 1 0 0))).exec
      (fun s pending => parksInside s pending) (start 1 1 1 (List.replicate 2 (.enroll 1 1 0 0)))
      ([none, none, none, none, some .SIGTSTP] ++ List.replicate 6 none)).map (·.returned) =
        some true := by
    decide +kernel
  obtain ⟨s, reached, returned⟩ := Machine.Reach.of_ran rfl ran
  exact ⟨s, reached, returned, all_exited_of_parksInside (by decide) reached returned⟩

/-- 52 threads in `enroll` with a signal in the first read section and one in the first write
section: the others wait for the lock twice each. -/
theorem long_wait_run :
    ((machine 1 1 1 (List.replicate 52 (.enroll 1 1 0 0))).exec (fun _ _ => true)
      (start 1 1 1 (List.replicate 52 (.enroll 1 1 0 0)))
      (List.replicate 52 none ++ [none, none, some .SIGTSTP] ++ List.replicate 51 none ++
        [none, none, none, some .SIGTSTP] ++ List.replicate 151 none)).map
          (fun s => (s.returned, (s.tcbs 3).freed, s.waitingQueue.contents.length)) =
      some (true, false, 50) := by
  decide +kernel

/-- After 100 waits `size` has wrapped behind `head`, the scan reads nothing any more, and
the scheduler returns while thread 3 has not exited. -/
theorem returns_with_waiters :
    ∃ s, (machine 1 1 1 (List.replicate 52 (.enroll 1 1 0 0))).Reach Machine.anyStep s ∧
      s.returned = true ∧ (s.tcbs 3).freed = false ∧ s.waitingQueue.contents.length = 50 := by
  obtain ⟨s, runs, result⟩ := Option.map_eq_some_iff.mp long_wait_run
  obtain ⟨returned, rest⟩ := Prod.mk.inj result
  obtain ⟨unfinished, waiters⟩ := Prod.mk.inj rest
  have initial : (machine 1 1 1 (List.replicate 52 (.enroll 1 1 0 0))).Reach Machine.anyStep
      (start 1 1 1 (List.replicate 52 (.enroll 1 1 0 0))) := .initial rfl
  exact ⟨s, initial.exec (fun _ _ _ => trivial) runs, returned, unfinished, waiters⟩

end NTUSP.Threads
