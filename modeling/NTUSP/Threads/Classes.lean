import NTUSP.Threads.Lines

/-!
# The spots of the classes

`q_p` and `q_s` are read when a thread computes its preference and are never written. So
the spots are right as long as nobody gets past `write_lock`, and from the first thread on
that does they are too many.
-/

namespace NTUSP.Threads

open NTUSP.Library

/-- The line of a thread that enrolls in `pj_class`, or in `sw_class`. -/
def Print.enrolls (pjClass : Bool) : Print → Bool
  | .acquireWrite _ chosen => chosen == pjClass
  | _ => false

namespace State

/-- How many threads have enrolled in a class. -/
def enrolled (pjClass : Bool) (s : State) : Nat := s.out.countP (Print.enrolls pjClass)

/-- With the students of each class the remaining spots make the initial ones. -/
structure Capacity (qP qS : Int) (s : State) : Prop where
  pjSpots : s.enrolled true + s.qP = qP
  swSpots : s.enrolled false + s.qS = qS
  pjFits : s.enrolled true ≤ qP
  swFits : s.enrolled false ≤ qS

/-- The running thread gets past `write_lock`: it takes the lock or is resumed in it. -/
def passesWriteLock (s : State) : Bool :=
  decide (s.current.routine = .enroll ∧ (s.current.env = .writeLock ∨
    (s.current.env = .yield 2 ∧ s.writeCount = 0 ∧ s.readCount = 0)))

/-- Nobody gets past `write_lock` in the step. -/
def enrollsNobody (s : State) (_ : Option Signal) : Prop := s.passesWriteLock = false

instance (s : State) (pending : Option Signal) : Decidable (s.enrollsNobody pending) := by
  unfold enrollsNobody
  infer_instance

/-- The students of both classes. -/
def students (s : State) : Nat := s.enrolled true + s.enrolled false

variable {s t u : State} {pending : Option Signal}

theorem enrolls_of_aside {line : Print} (aside : line.aside = true) (pjClass : Bool) :
    line.enrolls pjClass = false := by
  cases line with
  | setUp | caught => rfl
  | _ => cases aside

theorem Quiet.enrolled (quiet : s.Quiet t) (pjClass : Bool) :
    t.enrolled pjClass = s.enrolled pjClass := by
  obtain ⟨more, printed, aside⟩ := quiet.out
  have none : more.countP (Print.enrolls pjClass) = 0 :=
    List.countP_eq_zero.mpr fun line member => by simp [enrolls_of_aside (aside line member)]
  simp only [State.enrolled, printed, List.countP_append, none, Nat.add_zero]

theorem Quiet.students (quiet : s.Quiet t) : t.students = s.students := by
  simp only [State.students, quiet.enrolled]

/-- The spots are as before, and the step enrolls as many threads as get past `write_lock`. -/
structure Enrolls (s t : State) (count : Nat) : Prop where
  spots : t.qP = s.qP ∧ t.qS = s.qS
  students : t.students = s.students + count

/-- What a routine prints before its yield, exit or jump. -/
theorem Enrolls.of_quiet {count : Nat} (qP : t.qP = s.qP) (qS : t.qS = s.qS)
    (printed : t.students = s.students + count) (quiet : t.Quiet u) : Enrolls s u count where
  spots := ⟨quiet.spots.1.trans qP, quiet.spots.2.trans qS⟩
  students := quiet.students.trans printed

theorem students_print (s : State) {line : Print} (other : ∀ pjClass, line.enrolls pjClass = false) :
    (s.print line).students = s.students := by
  simp [students, enrolled, State.print, other]

theorem students_setCurrent (s : State) (tcb : Tcb) : (s.setCurrent tcb).students = s.students := rfl

theorem threadExit_enrolls (qP : t.qP = s.qP) (qS : t.qS = s.qS)
    (printed : t.students = s.students) : Enrolls s t.threadExit 0 :=
  .of_quiet (t := t.print (.exit t.current.id)) qP qS
    (by rw [students_print t fun _ => rfl, printed]; rfl) (scheduler_quiet _ 3)

theorem finishTurn_enrolls (qP : t.qP = s.qP) (qS : t.qS = s.qS)
    (printed : t.students = s.students) : Enrolls s (t.finishTurn pending) 0 := by
  unfold finishTurn
  split
  · exact threadExit_enrolls qP qS printed
  · exact .of_quiet qP qS printed (threadYield_quiet t 0 pending)

theorem loopHead_spots (s : State) :
    s.loopHead.qP = s.qP ∧ s.loopHead.qS = s.qS ∧ s.loopHead.students = s.students := by
  obtain ⟨tcb, _, same⟩ := s.loopHead_kept
  rw [same]
  exact ⟨rfl, rfl, rfl⟩

/-- A turn of a loop computes in the frame of its thread and prints a line. -/
theorem loopTurn_enrolls (tcb : Tcb) {line : Print}
    (other : ∀ pjClass, line.enrolls pjClass = false) :
    Enrolls s (((s.loopHead.setCurrent tcb).print line).finishTurn pending) 0 := by
  obtain ⟨qP, qS, printed⟩ := s.loopHead_spots
  refine finishTurn_enrolls qP qS ?_
  rw [students_print _ other, students_setCurrent, printed]

/-- Past `write_lock` one thread enrolls in one class. -/
theorem enrollWriting_enrolls (qP : t.qP = s.qP) (qS : t.qS = s.qS)
    (printed : t.students = s.students) : Enrolls s (t.enrollWriting pending) 1 := by
  refine .of_quiet (t := t.print (.acquireWrite t.current.id (decide (t.pp > t.ps)))) qP qS ?_
    (threadYield_quiet _ 3 pending)
  rw [← printed]
  simp only [students, enrolled, State.print, List.countP_append, List.countP_singleton,
    Print.enrolls]
  cases decide (t.pp > t.ps)
  · simp
    omega
  · simp
    omega

theorem enrollReading_enrolls (qP : t.qP = s.qP) (qS : t.qS = s.qS)
    (printed : t.students = s.students) : Enrolls s (t.enrollReading pending) 0 := by
  refine .of_quiet (t := t.print (.acquireRead t.current.id)) qP qS ?_
    (threadYield_quiet _ 1 pending)
  rw [students_print t fun _ => rfl, printed]
  rfl

theorem enrollRelease_enrolls (s : State) (pending : Option Signal) :
    Enrolls s (s.enrollRelease pending) 0 := by
  have quiet := threadYield_quiet ({ s.readUnlock with
      pp := s.current.args.getD 0 0 * s.qP, ps := s.current.args.getD 1 0 * s.qS }.print
    (.releaseRead s.current.id (s.current.args.getD 0 0 * s.qP) (s.current.args.getD 1 0 * s.qS)))
    2 pending
  exact
    { spots := quiet.spots
      students := by
        rw [enrollRelease, quiet.students, students_print _ fun _ => rfl]
        rfl }

theorem passesWriteLock_eq_false (other : s.current.routine ≠ .enroll ∨
    (s.current.env ≠ .writeLock ∧ (s.current.env = .yield 2 → s.writeCount ≠ 0 ∨ s.readCount ≠ 0))) :
    s.passesWriteLock = false := by
  unfold passesWriteLock
  rw [decide_eq_false_iff_not]
  rintro ⟨routine, parked | ⟨env, unwritten, unread⟩⟩
  · rcases other with sequential | ⟨unparked, _⟩
    · exact sequential routine
    · exact unparked parked
  · rcases other with sequential | ⟨_, busy⟩
    · exact sequential routine
    · rcases busy env with writer | reader
      · exact writer unwritten
      · exact reader unread

/-- A step leaves the spots alone and enrolls the thread that gets past `write_lock`. -/
theorem step_enrolls (steps : s.step pending = some t) :
    Enrolls s t s.passesWriteLock.toNat := by
  unfold step at steps
  split at steps
  · cases steps
  cases routine : s.current.routine with
  | idle =>
    rw [routine] at steps
    have next := Option.some.inj steps
    subst next
    rw [passesWriteLock_eq_false (.inl (by simp [routine]))]
    refine .of_quiet (t := s.print (.idle s.current.id)) rfl rfl ?_ (threadYield_quiet _ 0 pending)
    exact students_print s fun _ => rfl
  | fibonacci =>
    rw [routine] at steps
    have next := Option.some.inj steps
    subst next
    rw [passesWriteLock_eq_false (.inl (by simp [routine]))]
    exact loopTurn_enrolls _ fun _ => rfl
  | pm =>
    rw [routine] at steps
    have next := Option.some.inj steps
    subst next
    rw [passesWriteLock_eq_false (.inl (by simp [routine]))]
    exact loopTurn_enrolls _ fun _ => rfl
  | enroll =>
    rw [routine] at steps
    cases runEnroll_cases routine steps with
    | compute sequential => exact absurd routine sequential
    | finish sequential => exact absurd routine sequential
    | sleep _ env first line seconds =>
      rw [passesWriteLock_eq_false (.inr (by simp [env]))]
      have next : s.runEnroll pending = some ((s.print (.sleep s.current.id
          (s.current.args.getD 2 0))).threadSleep (s.current.args.getD 2 0 + s.timeSlice)) := by
        simp [runEnroll, env, first]
      rw [next] at steps
      rw [← Option.some.inj steps]
      exact .of_quiet (t := s.print (.sleep s.current.id (s.current.args.getD 2 0))) rfl rfl
        (students_print s fun _ => rfl) (threadSleep_quiet _ _)
    | readPark _ env awake woken busy =>
      rw [passesWriteLock_eq_false (.inr (by simp [env]))]
      have quiet := threadAwake_quiet woken
      exact .of_quiet quiet.spots.1 quiet.spots.2 quiet.students (park_quiet _ _ _)
    | @readTake v _ env woken free =>
      rw [passesWriteLock_eq_false (.inr (by simp [env]))]
      have quiet := threadAwake_quiet woken
      have students : v.students = s.students := quiet.students
      exact enrollReading_enrolls (t := { v with readCount := v.readCount + 1 }) quiet.spots.1
        quiet.spots.2 students
    | readResume _ env =>
      rw [passesWriteLock_eq_false (.inr (by simp [env]))]
      exact enrollReading_enrolls rfl rfl rfl
    | release _ env =>
      rw [passesWriteLock_eq_false (.inr (by simp [env]))]
      exact enrollRelease_enrolls s pending
    | writePark _ env busy =>
      rw [passesWriteLock_eq_false (.inr ⟨by simp [env], fun _ => busy⟩)]
      exact .of_quiet rfl rfl rfl (park_quiet _ _ _)
    | writeTake _ env unwritten unread =>
      have passes : s.passesWriteLock = true :=
        decide_eq_true ⟨routine, .inr ⟨env, unwritten, unread⟩⟩
      rw [passes]
      exact enrollWriting_enrolls (t := { s with writeCount := 1 }) rfl rfl rfl
    | writeResume _ env =>
      have passes : s.passesWriteLock = true := decide_eq_true ⟨routine, .inl env⟩
      rw [passes]
      exact enrollWriting_enrolls rfl rfl rfl
    | leave _ env last =>
      rw [passesWriteLock_eq_false (.inr (by simp [env, last]))]
      refine threadExit_enrolls rfl rfl ?_
      rw [students_print _ fun _ => rfl]
      rfl

end State

open State

variable {timeSlice qP qS : Int} {specs : List Spec} {s : State}
  {guard : State → Option Signal → Prop}

/-- The spots are never taken. -/
theorem reach_spots (reached : (machine timeSlice qP qS specs).Reach guard s) :
    s.qP = qP ∧ s.qS = qS := by
  refine reached.invariant (fun s => s.qP = qP ∧ s.qS = qS) ?_ ?_
  · intro state initial
    have same : state = start timeSlice qP qS specs := initial
    rw [same]
    obtain ⟨first, second, _⟩ := start_out timeSlice qP qS specs
    exact ⟨first, second⟩
  · intro state pending next _ spots _ steps
    have step := step_enrolls steps
    exact ⟨step.spots.1.trans spots.1, step.spots.2.trans spots.2⟩

/-- Somebody has enrolled exactly if a step got past `write_lock`. -/
theorem no_students_iff (reached : (machine timeSlice qP qS specs).Reach Machine.anyStep s) :
    s.students = 0 ↔ (machine timeSlice qP qS specs).Reach enrollsNobody s := by
  constructor
  · intro none
    induction reached with
    | initial valid => exact .initial valid
    | @step s pending t prior _ steps ih =>
      have step := step_enrolls steps
      have students := step.students
      have before : s.students = 0 := by omega
      have nobody : s.enrollsNobody pending := by
        unfold enrollsNobody
        cases passes : s.passesWriteLock with
        | false => rfl
        | true =>
          rw [passes, Bool.toNat_true] at students
          omega
      exact .step (ih before) nobody steps
  · intro reached
    refine reached.invariant (fun s => s.students = 0) ?_ ?_
    · intro state initial
      have same : state = start timeSlice qP qS specs := initial
      have aside := (start_out timeSlice qP qS specs).2.2
      have none : ∀ pjClass, state.enrolled pjClass = 0 := by
        intro pjClass
        rw [same]
        exact List.countP_eq_zero.mpr fun line member => by
          simp [enrolls_of_aside (aside line member)]
      simp only [students, none]
    · intro state pending next _ none nobody steps
      have step := step_enrolls steps
      rw [step.students, none, nobody]
      rfl

/-- The remaining spots are right exactly in the runs in which nobody gets past
`write_lock`. -/
theorem capacity_iff_enrollsNobody (pjSpots : 0 ≤ qP) (swSpots : 0 ≤ qS)
    (reached : (machine timeSlice qP qS specs).Reach Machine.anyStep s) :
    s.Capacity qP qS ↔ (machine timeSlice qP qS specs).Reach enrollsNobody s := by
  obtain ⟨sameP, sameS⟩ := reach_spots reached
  rw [← no_students_iff reached]
  unfold students
  constructor
  · rintro ⟨pj, sw, _, _⟩
    omega
  · intro none
    refine ⟨?_, ?_, ?_, ?_⟩ <;> omega

/-- One thread holds the read lock and has not enrolled. -/
theorem capacity_one_reader :
    ∃ s, (machine 1 1 1 [.enroll 1 0 0 0]).Reach Machine.anyStep s ∧ s.readCount = 1 ∧
      s.Capacity 1 1 := by
  have ran : ((machine 1 1 1 [.enroll 1 0 0 0]).exec (fun s pending => enrollsNobody s pending)
      (start 1 1 1 [.enroll 1 0 0 0]) [none, none]).map (·.readCount) = some 1 := by
    decide +kernel
  obtain ⟨s, reached, reads⟩ := Machine.Reach.of_ran rfl ran
  have any := reached.mono fun _ _ _ => (trivial : Machine.anyStep _ _)
  exact ⟨s, any, reads, (capacity_iff_enrollsNobody (by decide) (by decide) any).mpr reached⟩

/-- Two threads that prefer `pj_class`, which has one spot, both enroll in it, and the spot
remains. -/
theorem class_overbooked :
    ∃ s, (machine 1 1 1 [.enroll 1 0 0 0, .enroll 1 0 0 0]).Reach Machine.anyStep s ∧
      s.enrolled true = 2 ∧ s.qP = 1 ∧ ¬ s.Capacity 1 1 := by
  have ran : ((machine 1 1 1 [.enroll 1 0 0 0, .enroll 1 0 0 0]).exec (fun _ _ => true)
      (start 1 1 1 [.enroll 1 0 0 0, .enroll 1 0 0 0]) (List.replicate 10 none)).map
        (fun s => (s.enrolled true, s.qP)) = some (2, 1) := by
    decide +kernel
  obtain ⟨s, runs, result⟩ := Option.map_eq_some_iff.mp ran
  obtain ⟨both, spots⟩ := Prod.mk.inj result
  refine ⟨s, (Machine.Reach.initial rfl).exec (fun _ _ _ => trivial) runs, both, spots, ?_⟩
  intro capacity
  have right := capacity.pjFits
  omega

end NTUSP.Threads
