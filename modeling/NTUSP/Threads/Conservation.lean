import NTUSP.Threads.Consistency

/-!
# No thread is lost or doubled

Every reachable state is consistent, so each created thread that has not exited is in
exactly one place: running, ready, waiting or asleep. No argument of the command line
matters for that; the ones the program is meant for also keep every step defined.
-/

namespace NTUSP.Threads

open NTUSP.Library

namespace State

variable {n j : Nat} {s t : State} {pending : Option Signal}

/-- How often a thread is running, ready, waiting or asleep. -/
def occurrences (s : State) (t : Nat) : Nat :=
  (if s.currentThread = t then 1 else 0) + s.queued t

/-- In a consistent state a living thread is in exactly one place. -/
theorem Consistent.occurrences_eq_one (cons : s.Consistent n) {p : Nat} (alive : s.Alive n p) :
    s.occurrences p = 1 := by
  have placed := cons.accounted.placed p
  unfold occurrences
  by_cases runs : s.currentThread = p
  · rw [if_neg fun elsewhere => elsewhere.2 runs.symm] at placed
    rw [if_pos runs, placed]
  · rw [if_pos ⟨alive, Ne.symm runs⟩] at placed
    rw [if_neg runs, placed]

/-- What is not alive is in no queue and not asleep. -/
theorem Consistent.queued_eq_zero (cons : s.Consistent n) {p : Nat} (gone : ¬ s.Alive n p) :
    s.queued p = 0 := by
  rw [cons.accounted.placed p, if_neg fun living => gone living.1]

/-! ## The start -/

/-- The state of `spawn_thread` behind `j` threads, of those `specs` names. -/
structure Spawned (specs : List Spec) (j : Nat) (s : State) : Prop extends s.Accounted j 0 where
  head : s.readyQueue.head = 0
  tail : s.readyQueue.size = j
  nobody : s.waitingQueue.contents = []
  unwritten : s.writeCount = 0
  unread : s.readCount = 0
  idleRuns : s.currentThread = 0
  running : s.returned = false
  loaded : ∀ p, 1 ≤ p → p ≤ j →
    ∃ spec ∈ specs, (s.tcbs p).routine = spec.routine ∧ (s.tcbs p).args = spec.args
  setup : ∀ p, 1 ≤ p → p ≤ j → (s.tcbs p).env = .setup

theorem blank_spawned (timeSlice qP qS : Int) (specs : List Spec) :
    (blank timeSlice qP qS).Spawned specs 0 := by
  have none_listed : TcbQueue.empty.contents = [] :=
    (TcbQueue.contents_eq_nil TcbQueue.empty_valid).mpr rfl
  refine
    { ids := fun p => rfl
      idle := rfl
      ready := TcbQueue.empty_valid
      waiting := TcbQueue.empty_valid
      sleeping := by simp [blank]
      slot := fun i p found => ?_
      few := by simp [THREAD_MAX]
      placed := fun q => ?_
      head := rfl
      tail := rfl
      nobody := none_listed
      unwritten := rfl
      unread := rfl
      idleRuns := rfl
      running := rfl
      loaded := fun p lower upper => by omega
      setup := fun p lower upper => rfl }
  · have member := List.mem_of_getElem? found
    simp [blank] at member
  · have gone : ¬ (blank timeSlice qP qS).Alive 0 q := fun alive => by
      have lower := alive.1
      have upper := alive.2.1
      omega
    rw [if_neg fun living => gone living.1]
    simp [queued, blank, none_listed, List.count_replicate]

/-- `thread_setup` appends the thread: before the first dispatch nothing wraps. -/
theorem threadSetup_readyQueue (s : State) (routine : Routine) (id : Nat) (args : List Int)
    (few : s.readyQueue.size + 1 < THREAD_MAX) :
    (s.threadSetup routine id args).readyQueue = s.readyQueue.enqueue id := by
  simp only [threadSetup, TcbQueue.enqueue, Nat.mod_eq_of_lt few]

theorem threadSetup_other (s : State) (routine : Routine) (id : Nat) (args : List Int) {p : Nat}
    (other : p ≠ id) : (s.threadSetup routine id args).tcbs p = s.tcbs p := by
  simp [threadSetup, setTcb, print, other]

theorem threadSetup_own (s : State) (routine : Routine) (id : Nat) (args : List Int) :
    (s.threadSetup routine id args).tcbs id =
      { id := id, routine := routine, args := args, waitingFor := 0, sleepingTime := 0
        env := .setup, n := 0, i := 0, fCur := 0, fPrev := 0, keepgo := false, freed := false } := by
  simp [threadSetup, setTcb]

/-- The new thread goes to the tail of the ready queue. -/
theorem Spawned.threadSetup_contents {specs : List Spec} (spawned : s.Spawned specs j)
    (few : j + 1 < THREAD_MAX) (spec : Spec) :
    (s.threadSetup spec.routine (j + 1) spec.args).readyQueue.contents =
      s.readyQueue.contents ++ [j + 1] := by
  rw [threadSetup_readyQueue _ _ _ _ (by rw [spawned.tail]; exact few)]
  refine TcbQueue.contents_enqueue spawned.ready (j + 1) ?_
  rw [TcbQueue.length_contents, spawned.head, spawned.tail, Ring.gap_of_le (by omega) (by omega)]
  omega

theorem Spawned.threadSetup {specs : List Spec} (spawned : s.Spawned specs j)
    (few : j + 1 < THREAD_MAX) {spec : Spec} (named : spec ∈ specs) :
    (s.threadSetup spec.routine (j + 1) spec.args).Spawned specs (j + 1) := by
  have ready := s.threadSetup_readyQueue spec.routine (j + 1) spec.args
    (by rw [spawned.tail]; exact few)
  have own := s.threadSetup_own spec.routine (j + 1) spec.args
  have other := fun p => s.threadSetup_other spec.routine (j + 1) spec.args (p := p)
  have grown := spawned.threadSetup_contents few spec
  refine
    { ids := fun p => ?_
      idle := by rw [other 0 (by omega)]; exact spawned.idle
      ready := by rw [ready]; exact TcbQueue.enqueue_valid spawned.ready _
      waiting := spawned.waiting
      sleeping := spawned.sleeping
      slot := spawned.slot
      few := few
      placed := fun q => ?_
      head := by rw [ready]; exact spawned.head
      tail := by
        rw [ready]
        simp only [TcbQueue.enqueue, spawned.tail, Nat.mod_eq_of_lt few]
      nobody := spawned.nobody
      unwritten := spawned.unwritten
      unread := spawned.unread
      idleRuns := spawned.idleRuns
      running := spawned.running
      loaded := fun p lower upper => ?_
      setup := fun p lower upper => ?_ }
  · by_cases same : p = j + 1
    · rw [same, own]
    · rw [other p same]
      exact spawned.ids p
  · have placed := spawned.placed q
    change (s.threadSetup spec.routine (j + 1) spec.args).readyQueue.contents.count q +
      s.waitingQueue.contents.count q + s.sleepingSet.count (some q) = _
    rw [grown, List.count_append, List.count_singleton]
    unfold queued at placed
    by_cases same : q = j + 1
    · rw [if_neg fun living => by have upper := living.1.2.1; omega] at placed
      subst same
      have alive : (s.threadSetup spec.routine (j + 1) spec.args).Alive (j + 1) (j + 1) :=
        ⟨by omega, by omega, by rw [own]⟩
      rw [if_pos BEq.rfl, if_pos ⟨alive, by omega⟩]
      omega
    · have alive : (s.threadSetup spec.routine (j + 1) spec.args).Alive (j + 1) q ↔
          s.Alive j q := by
        unfold Alive
        rw [other q same]
        refine and_congr_right fun _ => and_congr_left fun _ => ?_
        omega
      simp only [alive, beq_false_of_ne (Ne.symm same), ← placed]
      simp
  · by_cases same : p = j + 1
    · exact ⟨spec, named, by rw [same, own], by rw [same, own]⟩
    · rw [other p same]
      exact spawned.loaded p lower (by omega)
  · by_cases same : p = j + 1
    · rw [same, own]
    · rw [other p same]
      exact spawned.setup p lower (by omega)

theorem Spawned.spawnThread {specs : List Spec} (rest : List Spec) (spawned : s.Spawned specs j)
    (few : j + rest.length < THREAD_MAX) (named : ∀ spec ∈ rest, spec ∈ specs) :
    (spawnThread s (j + 1) rest).Spawned specs (j + rest.length) := by
  induction rest generalizing s j with
  | nil => exact spawned
  | cons spec rest ih =>
    rw [List.length_cons] at few ⊢
    have next := ih (spawned.threadSetup (by omega) (named spec List.mem_cons_self)) (by omega)
      fun other member => named other (List.mem_cons_of_mem _ member)
    rwa [show j + (rest.length + 1) = j + 1 + rest.length by omega]

/-- The state in which the scheduler is entered for the first time. -/
theorem spawned (timeSlice qP qS : Int) {specs : List Spec} (few : specs.length < THREAD_MAX) :
    (Threads.spawnThread (blank timeSlice qP qS) 1 specs).Spawned specs specs.length := by
  have all := (blank_spawned timeSlice qP qS specs).spawnThread specs (by omega)
    fun spec member => member
  rwa [Nat.zero_add] at all

theorem Spawned.entered {specs : List Spec} (spawned : s.Spawned specs n) :
    s.Entered n (s.inHand 0) := by
  refine
    { spawned.toAccounted with
      parked := fun p member => ?_
      exclusive := fun writer => absurd spawned.unwritten writer
      uniform := fun _ _ _ p member => ?_ }
  all_goals simp [spawned.nobody] at member

/-- The first pass through the scheduler. -/
theorem start_after (timeSlice qP qS : Int) {specs : List Spec} (few : specs.length < THREAD_MAX) :
    After specs.length (Threads.spawnThread (blank timeSlice qP qS) 1 specs)
      (start timeSlice qP qS specs) := by
  have spawned := spawned timeSlice qP qS few
  have after := spawned.entered.after 0 (.inl spawned.idleRuns) spawned.running
  rw [exited, if_neg (by decide)] at after
  exact after

end State

open State

variable {timeSlice qP qS : Int} {specs : List Spec} {s : State}
  {guard : State → Option Signal → Prop}

theorem reach_consistent (few : specs.length < THREAD_MAX)
    (reached : (machine timeSlice qP qS specs).Reach guard s) : s.Consistent specs.length := by
  refine reached.invariant _ ?_ ?_
  · intro state initial
    have same : state = start timeSlice qP qS specs := initial
    rw [same]
    exact (start_after timeSlice qP qS few).consistent
  · intro state pending next _ cons _ steps
    obtain ⟨_, _, _, _, moved⟩ := cons.step steps
    exact moved.consistent

/-- Whenever a thread runs and when the scheduler returns, each created thread that has
not exited is in exactly one of the four places; exited threads, the idle thread and
ids without a thread are in no queue and not asleep. -/
theorem thread_conserved (few : specs.length < THREAD_MAX)
    (reached : (machine timeSlice qP qS specs).Reach Machine.anyStep s) (p : Nat) :
    (1 ≤ p → p ≤ specs.length → (s.tcbs p).freed = false → s.occurrences p = 1) ∧
      ((s.tcbs p).freed = true ∨ p = 0 ∨ specs.length < p → s.queued p = 0) := by
  have cons := reach_consistent few reached
  refine ⟨fun lower upper unfinished => ?_, fun gone => ?_⟩
  · exact cons.occurrences_eq_one ⟨lower, upper, unfinished⟩
  · refine cons.queued_eq_zero fun alive => ?_
    rcases gone with exited | idle | absent
    · exact absurd (exited.symm.trans alive.2.2) (by decide)
    · have lower := alive.1
      omega
    · have upper := alive.2.1
      omega

/-- Three threads in `enroll`: 1 runs inside the write lock, 2 is parked and 3 sleeps. -/
theorem thread_conserved_parked :
    ∃ s, (machine 1 1 1 [.enroll 1 1 0 0, .enroll 1 1 0 0, .enroll 1 1 9 0]).Reach
        Machine.anyStep s ∧
      s.currentThread = 1 ∧ s.waitingQueue.contents = [2] ∧
        s.sleepingSet[3]? = some (some 3) ∧ s.occurrences 2 = 1 := by
  have ran : ((machine 1 1 1 [.enroll 1 1 0 0, .enroll 1 1 0 0, .enroll 1 1 9 0]).exec
      (fun _ _ => true) (start 1 1 1 [.enroll 1 1 0 0, .enroll 1 1 0 0, .enroll 1 1 9 0])
      (List.replicate 5 none ++ [some .SIGTSTP, none])).map (fun s =>
        (s.currentThread, s.waitingQueue.contents, s.sleepingSet[3]?, (s.tcbs 2).freed)) =
      some (1, [2], some (some 3), false) := by
    decide +kernel
  obtain ⟨s, runs, seen⟩ := Option.map_eq_some_iff.mp ran
  simp only [Prod.mk.injEq] at seen
  obtain ⟨current, waits, sleeps, living⟩ := seen
  have reached : (machine 1 1 1 [.enroll 1 1 0 0, .enroll 1 1 0 0, .enroll 1 1 9 0]).Reach
      Machine.anyStep s := (Machine.Reach.initial rfl).exec (fun _ _ _ => trivial) runs
  exact ⟨s, reached, current, waits, sleeps,
    (thread_conserved (by decide) reached 2).1 (by decide) (by decide) living⟩

/-- Every thread keeps the routine and the arguments it was created with. -/
theorem reach_loaded (few : specs.length < THREAD_MAX)
    (reached : (machine timeSlice qP qS specs).Reach guard s) {p : Nat} (lower : 1 ≤ p)
    (upper : p ≤ specs.length) :
    ∃ spec ∈ specs, (s.tcbs p).routine = spec.routine ∧ (s.tcbs p).args = spec.args := by
  have created : p ≠ 0 := by omega
  refine reached.invariant
    (fun s => ∃ spec ∈ specs, (s.tcbs p).routine = spec.routine ∧ (s.tcbs p).args = spec.args) ?_ ?_
  · intro state initial
    have same : state = start timeSlice qP qS specs := initial
    have kept := (start_after timeSlice qP qS few).kept.tcb p created
    obtain ⟨spec, named, routine, args⟩ := (spawned timeSlice qP qS few).loaded p lower upper
    rw [same]
    exact ⟨spec, named, kept.routine.trans routine, kept.args.trans args⟩
  · intro state pending next prior loaded _ steps
    obtain ⟨spec, named, routine, args⟩ := loaded
    obtain ⟨_, _, _, _, moved⟩ := (reach_consistent few prior).step steps
    refine ⟨spec, named, ?_, ?_⟩
    all_goals by_cases runs : p = state.currentThread
    · rw [← routine, runs, moved.routine (runs ▸ created), current]
    · rw [(moved.others p created runs).routine, routine]
    · rw [← args, runs, moved.args (runs ▸ created), current]
    · rw [(moved.others p created runs).args, args]

/-- With arguments in range every thread goes on until the scheduler returns, whatever
signal is pending. -/
theorem step_defined (few : specs.length < THREAD_MAX) (valid : ∀ spec ∈ specs, spec.Valid)
    (reached : (machine timeSlice qP qS specs).Reach guard s) (running : s.returned = false)
    (pending : Option Signal) : ∃ t, s.step pending = some t := by
  unfold step
  rw [running]
  cases routine : s.current.routine with
  | idle => exact ⟨_, rfl⟩
  | fibonacci => exact ⟨_, rfl⟩
  | pm => exact ⟨_, rfl⟩
  | enroll =>
    have alive := (reach_consistent few reached).alive_of_enroll routine
    obtain ⟨spec, named, same, args⟩ := reach_loaded few reached alive.1 alive.2.1
    have enrolls : spec.routine = .enroll := same.symm.trans routine
    cases spec with
    | enroll dP dS seconds b =>
      obtain ⟨lower, upper⟩ := valid _ named
      have index : s.current.args.getD 3 0 = b := by
        unfold current
        rw [args]
        rfl
      change ∃ t, s.runEnroll pending = some t
      unfold runEnroll
      dsimp only
      split
      · split
        · exact ⟨_, rfl⟩
        · rw [index]
          unfold threadAwake
          rw [if_pos ⟨lower, upper⟩]
          split <;> exact ⟨_, rfl⟩
      all_goals exact ⟨_, rfl⟩
    | _ => cases enrolls

end NTUSP.Threads
