import NTUSP.Threads.Scheduler

/-!
# What one step of a thread can do

`step_cases` lists what a thread does between its resume point and its next yield or
jump into the scheduler. The three routines other than `enroll` only compute; the
statements of `enroll` are told apart by the resume point and the lock counts.
-/

namespace NTUSP.Threads.State

open NTUSP.Library

/-- Only the locals kept in the tcb of the current thread and the output changed. -/
def Computed (s t : State) : Prop :=
  ∃ tcb out, s.current.Kept tcb ∧ t = { s.setCurrent tcb with out := out }

/-- The ways from a resume point to the next yield or jump. -/
inductive StepTo (s : State) (pending : Option Signal) : State → Prop where
  | compute {t : State} (sequential : s.current.routine ≠ .enroll) (computed : s.Computed t) :
      StepTo s pending (t.threadYield 0 pending)
  | finish {t : State} (sequential : s.current.routine ≠ .enroll)
      (created : s.current.routine ≠ .idle) (computed : s.Computed t) :
      StepTo s pending t.threadExit
  | sleep (enroll : s.current.routine = .enroll) (env : s.current.env = .setup)
      (first : s.current.keepgo = false) (line : Print) (seconds : Int) :
      StepTo s pending ((s.print line).threadSleep seconds)
  | readPark {t : State} (enroll : s.current.routine = .enroll) (env : s.current.env = .setup)
      (awake : s.current.keepgo = true)
      (woken : s.threadAwake (s.current.args.getD 3 0) = some t) (busy : t.writeCount ≠ 0) :
      StepTo s pending (t.park .readLock 4)
  | readTake {t : State} (enroll : s.current.routine = .enroll) (env : s.current.env = .setup)
      (woken : s.threadAwake (s.current.args.getD 3 0) = some t) (free : t.writeCount = 0) :
      StepTo s pending ({ t with readCount := t.readCount + 1 }.enrollReading pending)
  | readResume (enroll : s.current.routine = .enroll) (env : s.current.env = .readLock) :
      StepTo s pending (s.enrollReading pending)
  | release (enroll : s.current.routine = .enroll) (env : s.current.env = .yield 1) :
      StepTo s pending (s.enrollRelease pending)
  | writePark (enroll : s.current.routine = .enroll) (env : s.current.env = .yield 2)
      (busy : s.writeCount ≠ 0 ∨ s.readCount ≠ 0) : StepTo s pending (s.park .writeLock 5)
  | writeTake (enroll : s.current.routine = .enroll) (env : s.current.env = .yield 2)
      (unwritten : s.writeCount = 0) (unread : s.readCount = 0) :
      StepTo s pending ({ s with writeCount := 1 }.enrollWriting pending)
  | writeResume (enroll : s.current.routine = .enroll) (env : s.current.env = .writeLock) :
      StepTo s pending (s.enrollWriting pending)
  | leave {k : Nat} (enroll : s.current.routine = .enroll) (env : s.current.env = .yield k)
      (last : k ≠ 1 ∧ k ≠ 2) : StepTo s pending s.enrollFinish

variable {s t u : State} {pending : Option Signal}

@[simp] theorem setCurrent_current (s : State) (tcb : Tcb) : (s.setCurrent tcb).current = tcb := by
  simp [current, setCurrent, setTcb]

@[simp] theorem setCurrent_setCurrent (s : State) (first second : Tcb) :
    (s.setCurrent first).setCurrent second = s.setCurrent second := by
  simp [setCurrent, setTcb]

@[simp] theorem setCurrent_self (s : State) : s.setCurrent s.current = s := by
  simp [setCurrent, setTcb, current]

theorem computed_print (tcb : Tcb) (kept : s.current.Kept tcb) (line : Print) :
    s.Computed ((s.setCurrent tcb).print line) :=
  ⟨tcb, s.out ++ [line], kept, rfl⟩

/-- The end of a turn exits or yields. -/
theorem finishTurn_stepTo (sequential : s.current.routine ≠ .enroll)
    (created : s.current.routine ≠ .idle) (computed : s.Computed t) :
    s.StepTo pending (t.finishTurn pending) := by
  unfold finishTurn
  split
  · exact .finish sequential created computed
  · exact .compute sequential computed

theorem loopHead_kept (s : State) : ∃ tcb, s.current.Kept tcb ∧ s.loopHead = s.setCurrent tcb := by
  unfold loopHead
  split
  · refine ⟨_, ?_, rfl⟩
    exact ⟨rfl, rfl, rfl, rfl, rfl, rfl⟩
  · refine ⟨_, ?_, rfl⟩
    exact ⟨rfl, rfl, rfl, rfl, rfl, rfl⟩

theorem Computed.trans (first : s.Computed t) (second : t.Computed u) : s.Computed u := by
  obtain ⟨tcb, out, kept, rfl⟩ := first
  obtain ⟨later, out', kept', rfl⟩ := second
  refine ⟨later, out', kept.trans ?_, ?_⟩
  · simpa [current, setCurrent, setTcb] using kept'
  · simp [setCurrent, setTcb]

theorem loopHead_computed (s : State) : s.Computed s.loopHead := by
  obtain ⟨tcb, kept, head⟩ := s.loopHead_kept
  rw [head]
  exact ⟨tcb, s.out, kept, rfl⟩

theorem fibonacciRound_computed (s : State) : s.Computed s.fibonacciRound := by
  refine s.computed_print _ ?_ _
  split <;> exact ⟨rfl, rfl, rfl, rfl, rfl, rfl⟩

theorem pmRound_computed (s : State) : s.Computed s.pmRound := by
  refine s.computed_print _ ?_ _
  split <;> exact ⟨rfl, rfl, rfl, rfl, rfl, rfl⟩

theorem runEnroll_cases (enroll : s.current.routine = .enroll)
    (steps : s.runEnroll pending = some t) : s.StepTo pending t := by
  unfold runEnroll at steps
  split at steps
  · rename_i env
    dsimp only at steps
    split at steps
    · rename_i first
      have next := Option.some.inj steps
      subst next
      exact .sleep enroll env first _ _
    · rename_i awake
      rw [Bool.not_eq_false] at awake
      obtain ⟨woken, found, next⟩ := Option.map_eq_some_iff.mp steps
      subst next
      unfold enrollReadLock
      split
      · rename_i busy
        exact .readPark enroll env awake found busy
      · rename_i free
        exact .readTake enroll env found (Classical.not_not.mp free)
  · rename_i env
    have next := Option.some.inj steps
    subst next
    exact .readResume enroll env
  · rename_i env
    have next := Option.some.inj steps
    subst next
    exact .release enroll env
  · rename_i env
    have next := Option.some.inj steps
    subst next
    unfold enrollWriteLock
    split
    · rename_i busy
      exact .writePark enroll env busy
    · rename_i free
      rw [not_or, Classical.not_not, Classical.not_not] at free
      exact .writeTake enroll env free.1 free.2
  · rename_i env
    have next := Option.some.inj steps
    subst next
    exact .writeResume enroll env
  · rename_i k notFirst notSecond env
    have next := Option.some.inj steps
    subst next
    exact .leave enroll env ⟨notFirst, notSecond⟩

/-- Every step is one of these, taken before the scheduler returned. -/
theorem step_cases (steps : s.step pending = some t) : s.returned = false ∧ s.StepTo pending t := by
  unfold step at steps
  split at steps
  · cases steps
  rename_i running
  refine ⟨Bool.not_eq_true _ ▸ running, ?_⟩
  split at steps
  · rename_i routine
    have next := Option.some.inj steps
    subst next
    refine .compute (by simp [routine]) ⟨s.current, s.out ++ [.idle s.current.id], .refl _, ?_⟩
    rw [setCurrent_self]
    rfl
  · rename_i routine
    have next := Option.some.inj steps
    subst next
    exact finishTurn_stepTo (by simp [routine]) (by simp [routine])
      (s.loopHead_computed.trans s.loopHead.fibonacciRound_computed)
  · rename_i routine
    have next := Option.some.inj steps
    subst next
    exact finishTurn_stepTo (by simp [routine]) (by simp [routine])
      (s.loopHead_computed.trans s.loopHead.pmRound_computed)
  · rename_i routine
    exact runEnroll_cases routine steps

/-- `thread_awake` finds nobody, or wakes the sleeper of its entry. -/
theorem threadAwake_cases {id : Int} (woken : s.threadAwake id = some t) :
    t = s ∨ ∃ p, s.sleepingSet[id.toNat]? = some (some p) ∧
      t = s.awaken id.toNat p { s.tcbs p with keepgo := true } := by
  unfold threadAwake at woken
  split at woken
  · split at woken
    · exact .inl (Option.some.inj woken).symm
    · rename_i p found
      exact .inr ⟨p, entry_of_getD found, (Option.some.inj woken).symm⟩
  · cases woken

/-- Waking a sleeper changes what a scan changes. -/
theorem threadAwake_scanned {id : Int} (woken : s.threadAwake id = some t) :
    s.Scanned t ∧ t.waitingQueue = s.waitingQueue := by
  rcases threadAwake_cases woken with same | ⟨p, _, same⟩
  · subst same
    exact ⟨.refl _, rfl⟩
  · subst same
    have written : s.Scanned (s.setTcb p { s.tcbs p with keepgo := true }) :=
      .setTcb ⟨rfl, rfl, rfl, rfl, rfl, rfl⟩
    exact ⟨{ written with }, rfl⟩

end NTUSP.Threads.State
