import NTUSP.Threads.Parking
import NTUSP.Threads.RoundRobin

/-!
# The program returns

What the created threads still have to do is added up over them. Every step of a created thread
lowers the sum, and so does every entry of the scheduler made by the idle thread, which runs only
while somebody sleeps. The idle thread enters when the alarm goes off, so with the alarm on time
every run comes to the return of the scheduler.
-/

namespace NTUSP.Threads

open NTUSP.Library

namespace State

variable {n p status : Nat} {s t v : State} {pending : Option Signal} {jump : Jump}

/-- What all created threads still have to do. -/
def allRemaining (s : State) (n : Nat) : Nat := ((List.range' 1 n).map s.remaining).sum

/-- What the progress of a run rests on: a living thread has a stop before it, and the idle
thread runs only while somebody sleeps. -/
structure Working (n : Nat) (s : State) : Prop where
  consistent : s.Consistent n
  ticking : 1 ≤ s.timeSlice
  stops : ∀ p, s.Alive n p → 0 < (s.tcbs p).stops
  watched : s.currentThread = 0 → s.returned = false → ∃ p, some p ∈ s.sleepingSet

/-! ## The idle thread -/

theorem sleeper_of_anySleeper (some_asleep : s.anySleeper (fun _ => true) = true) :
    ∃ p, some p ∈ s.sleepingSet := by
  unfold anySleeper at some_asleep
  obtain ⟨i, _, seen⟩ := List.any_eq_true.mp some_asleep
  split at seen
  · cases seen
  · rename_i p found
    exact ⟨p, List.mem_of_getElem? (entry_of_getD found)⟩

/-- The idle thread is chosen only while somebody sleeps. -/
theorem Accounted.dispatch_watched (acc : s.Accounted n 0) (idle : s.dispatch.currentThread = 0)
    (going : s.dispatch.returned = false) : ∃ p, some p ∈ s.dispatch.sleepingSet := by
  unfold State.dispatch at idle going ⊢
  rw [acc.dropSleeping] at idle going ⊢
  by_cases nobody : s.readyQueue.head = s.readyQueue.size
  · rw [if_pos nobody] at going ⊢
    cases awake : s.anySleeper fun _ => true with
    | true => exact sleeper_of_anySleeper awake
    | false =>
      rw [awake] at going
      cases going
  · rw [if_neg nobody] at idle
    dsimp only at idle
    rw [if_neg nobody] at idle
    have first := TcbQueue.contents_advance acc.ready nobody
    have alive := acc.alive_of_ready (by rw [first]; exact List.mem_cons_self)
    exact absurd idle (Accounted.created_of_alive alive.1)

theorem Enters.timeSlice (enters : s.Enters n status) :
    (s.scheduler status).timeSlice = s.timeSlice := by
  have idle : s.createIdle.timeSlice = s.timeSlice := by
    unfold createIdle
    split <;> rfl
  have slept : s.createIdle.sleepScan.timeSlice = s.createIdle.timeSlice :=
    sleepScan_invariant (fun u => u.timeSlice = s.createIdle.timeSlice)
      (fun u i same => (sleepScanStep_timeSlice u i).trans same) rfl
  have scanned : s.scans.timeSlice = s.createIdle.sleepScan.timeSlice :=
    (s.createIdle.sleepScan.waitScanFrom_tables _ _).2.2
  have settled := (s.scans.settle_same status).2
  have last : (s.scheduler status).timeSlice = (s.scans.settle status).timeSlice := by
    change (s.scans.settle status).dispatch.timeSlice = _
    rcases (enters.1.settle enters.2).dispatch_cases with step | ⟨_, _, step⟩ | ⟨_, step⟩ <;>
      rw [step]
    rfl
  rw [last, settled, scanned, slept, idle]

theorem Enters.watched (enters : s.Enters n status) (idle : (s.scheduler status).currentThread = 0)
    (going : (s.scheduler status).returned = false) :
    ∃ p, some p ∈ (s.scheduler status).sleepingSet :=
  (enters.1.settle enters.2).dispatch_watched idle going

/-- The idle thread enters the scheduler when a signal is pending. -/
theorem Consistent.idle_entry (cons : s.Consistent n) (idle : s.currentThread = 0)
    (going : s.returned = false) : (s.entry pending).isSome = pending.isSome := by
  have routine : s.current.routine = .idle := by
    rw [State.current, idle]
    exact cons.accounted.idle
  unfold State.entry State.body
  rw [going, routine]
  simp [jumpEntry]

/-! ## A step -/

/-- A step keeps the time slice, and the idle thread is watched behind it. -/
theorem Consistent.step_watched (cons : s.Consistent n) (steps : s.step pending = some t)
    (watched : s.currentThread = 0 → s.returned = false → ∃ p, some p ∈ s.sleepingSet) :
    t.timeSlice = s.timeSlice ∧
      (t.currentThread = 0 → t.returned = false → ∃ p, some p ∈ t.sleepingSet) := by
  obtain ⟨v, jump, ran, rfl⟩ := body_of_step steps
  have going := (step_cases steps).1
  obtain ⟨current, slice⟩ := (stirs_of_body ran).globals
  cases found : v.jumpEntry pending jump with
  | none =>
    obtain ⟨k, goes⟩ := jump_of_none found
    rw [goes]
    refine ⟨slice, fun idle _ => ?_⟩
    have idle : s.currentThread = 0 := current.symm.trans idle
    obtain ⟨p, asleep⟩ := watched idle going
    have routine : s.current.routine = .idle := by
      rw [State.current, idle]
      exact cons.accounted.idle
    cases stirs_of_body ran with
    | sleep enroll | awake enroll =>
      rw [routine] at enroll
      cases enroll
    | other _ alike => exact ⟨p, alike.sleepingSet ▸ asleep⟩
  | some pass =>
    have enters := cons.enters (ends_of_body ran) found
    rw [jump_of_entry found]
    refine ⟨?_, enters.watched⟩
    rw [enters.timeSlice, jumpEntry_timeSlice found, slice]

/-- The stops before a thread that does not run stay the same. -/
theorem Consistent.step_stops (cons : s.Consistent n) (steps : s.step pending = some t)
    (created : p ≠ 0) (apart : p ≠ s.currentThread) :
    (t.tcbs p).stops = (s.tcbs p).stops ∧ (t.tcbs p).freed = (s.tcbs p).freed := by
  obtain ⟨_, _, _, _, moved⟩ := cons.step steps
  obtain ⟨v, jump, ran, rfl⟩ := body_of_step steps
  have kept := moved.others p created apart
  have locals : ((v.jump pending jump).tcbs p).locals = (s.tcbs p).locals :=
    (jump_locals created).trans ((ends_of_body ran).locals created apart)
  exact ⟨Tcb.stops_of_kept kept locals, kept.freed⟩

theorem Working.step (working : s.Working n) (steps : s.step pending = some t) :
    t.Working n := by
  obtain ⟨cons, ticking, stops, watched⟩ := working
  obtain ⟨_, _, _, _, moved⟩ := cons.step steps
  obtain ⟨slice, still⟩ := cons.step_watched steps watched
  refine ⟨moved.consistent, slice ▸ ticking, fun p alive => ?_, still⟩
  have created := Accounted.created_of_alive alive
  by_cases runs : p = s.currentThread
  · subst runs
    have own := cons.step_own steps created
      (stops _ (cons.running.resolve_left created)) ticking
    exact own.2 alive.2.2
  · obtain ⟨same, freed⟩ := cons.step_stops steps created runs
    rw [same]
    exact stops p ⟨alive.1, alive.2.1, freed.symm.trans alive.2.2⟩

/-- A step leaves at most as much to do to every thread: less to the one that runs, and less to
the sleepers if it enters the scheduler. -/
theorem Working.remaining_le (working : s.Working n) (steps : s.step pending = some t)
    (lower : 1 ≤ p) (upper : p ≤ n) : t.remaining p ≤ s.remaining p ∧
      (p = s.currentThread ∨ some p ∈ s.sleepingSet ∧ (s.entry pending).isSome →
        t.remaining p < s.remaining p) := by
  obtain ⟨cons, ticking, stops, _⟩ := working
  have created : p ≠ 0 := by omega
  by_cases runs : p = s.currentThread
  · subst runs
    have own := cons.step_own steps created
      (stops _ (cons.running.resolve_left created)) ticking
    exact ⟨Nat.le_of_lt own.1, fun _ => own.1⟩
  · obtain ⟨same, freed⟩ := cons.step_stops steps created runs
    obtain ⟨less, sleeper⟩ := cons.step_nap steps created
      (Nat.lt_of_le_of_lt upper cons.accounted.few) runs ticking
    unfold remaining
    rw [same, freed]
    refine ⟨?_, fun asleep => ?_⟩
    · split <;> omega
    · obtain ⟨member, entered⟩ := asleep.resolve_left runs
      have alive := (cons.accounted.alive_of_sleeping member).1
      have earlier := sleeper (cons.accounted.mem_sleepingSet.mp member) entered
      rw [alive.2.2]
      simpa using earlier

/-- A step leaves no more to do, and less unless the idle thread goes on without a signal. -/
theorem Working.allRemaining (working : s.Working n) (steps : s.step pending = some t) :
    t.allRemaining n ≤ s.allRemaining n ∧
      (s.currentThread ≠ 0 ∨ pending.isSome → t.allRemaining n < s.allRemaining n) := by
  have le : ∀ p ∈ List.range' 1 n, t.remaining p ≤ s.remaining p := by
    intro p member
    rw [List.mem_range'_1] at member
    exact (working.remaining_le steps member.1 (by omega)).1
  refine ⟨List.sum_le_sum le, fun moves => ?_⟩
  have lower : ∃ p, s.Alive n p ∧
      (p = s.currentThread ∨ some p ∈ s.sleepingSet ∧ (s.entry pending).isSome) := by
    by_cases idle : s.currentThread = 0
    · have signalled := moves.resolve_left fun created => created idle
      obtain ⟨p, asleep⟩ := working.watched idle (step_cases steps).1
      refine ⟨p, (working.consistent.accounted.alive_of_sleeping asleep).1, .inr ⟨asleep, ?_⟩⟩
      rw [working.consistent.idle_entry idle (step_cases steps).1]
      exact signalled
    · exact ⟨s.currentThread, working.consistent.running.resolve_left idle, .inl rfl⟩
  obtain ⟨p, alive, drops⟩ := lower
  refine List.sum_lt_sum _ _ le ⟨p, ?_, (working.remaining_le steps alive.1 alive.2.1).2 drops⟩
  rw [List.mem_range'_1]
  have := alive.1
  have := alive.2.1
  omega

end State

open State

variable {timeSlice qP qS : Int} {specs : List Spec} {guard : State → Option Signal → Prop}

/-! ## Runs -/

/-- A fresh thread has all its stops before it. -/
theorem Spec.Valid.stops {spec : Spec} (valid : spec.Valid) {tcb : Tcb}
    (routine : tcb.routine = spec.routine) (args : tcb.args = spec.args)
    (setup : tcb.env = .setup) : 0 < tcb.stops := by
  unfold Tcb.stops
  rw [routine, args, setup]
  cases spec with
  | fibonacci m | pm m =>
    have least : 1 ≤ m := valid
    change 0 < m.toNat
    omega
  | enroll =>
    change 0 < Env.setup.stops
    decide

theorem spawnThread_timeSlice (s : State) (id : Nat) (specs : List Spec) :
    (spawnThread s id specs).timeSlice = s.timeSlice := by
  induction specs generalizing s id with
  | nil => rfl
  | cons spec rest ih => exact ih (s.threadSetup spec.routine id spec.args) (id + 1)

theorem start_working (qP qS : Int) (few : specs.length < THREAD_MAX)
    (valid : ∀ spec ∈ specs, spec.Valid) (ticking : 1 ≤ timeSlice) :
    (start timeSlice qP qS specs).Working specs.length := by
  have spawned := spawned timeSlice qP qS few
  have after := start_after timeSlice qP qS few
  have enters : (spawnThread (blank timeSlice qP qS) 1 specs).Enters specs.length 0 :=
    ⟨spawned.entered, .inl spawned.idleRuns⟩
  have slice : (start timeSlice qP qS specs).timeSlice = timeSlice := by
    rw [start, enters.timeSlice, spawnThread_timeSlice]
    rfl
  refine ⟨after.consistent, by rw [slice]; exact ticking, fun p alive => ?_, enters.watched⟩
  have kept := after.kept.tcb p (Accounted.created_of_alive alive)
  obtain ⟨spec, named, routine, args⟩ := spawned.loaded p alive.1 alive.2.1
  exact (valid spec named).stops (kept.routine.trans routine) (kept.args.trans args)
    (kept.env.trans (spawned.setup p alive.1 alive.2.1))

theorem reach_working (few : specs.length < THREAD_MAX) (valid : ∀ spec ∈ specs, spec.Valid)
    (ticking : 1 ≤ timeSlice) {s : State}
    (reached : (machine timeSlice qP qS specs).Reach guard s) : s.Working specs.length := by
  refine reached.invariant (State.Working specs.length) ?_ ?_
  · intro state initial
    have same : state = start timeSlice qP qS specs := initial
    rw [same]
    exact start_working qP qS few valid ticking
  · intro state pending next _ working _ steps
    exact working.step steps

/-- The program beside the seconds since the alarm was set: every yield comes after a
`sleep(1)`, and every entry of the scheduler sets the alarm. -/
def clocked (timeSlice qP qS : Int) (specs : List Spec) :
    Machine (State × Nat) (Option Signal) :=
  (machine timeSlice qP qS specs).beside 0 fun s pending seconds =>
    if (s.entry pending).isSome then 0 else seconds + 1

/-- The alarm is on time: a yield finds no signal only before the time slice is over. -/
def onTime (s : State × Nat) (pending : Option Signal) : Prop :=
  pending = none → (s.2 : Int) + 1 < s.1.timeSlice

theorem clocked_start (timeSlice qP qS : Int) (specs : List Spec) :
    (clocked timeSlice qP qS specs).Reach onTime (start timeSlice qP qS specs, 0) := by
  have first : (machine timeSlice qP qS specs).Initial (start timeSlice qP qS specs) := rfl
  exact .initial (Machine.beside_initial first)

/-- The scheduler has returned, and every created thread has exited or is parked. -/
def Over (n : Nat) (s : State) : Prop :=
  s.returned = true ∧ ∀ p, 1 ≤ p → p ≤ n → (s.tcbs p).freed = true ∨ p ∈ s.waitingQueue.contents

theorem over_of_returned (few : specs.length < THREAD_MAX) {s : State}
    (reached : (machine timeSlice qP qS specs).Reach guard s) (returned : s.returned = true) :
    Over specs.length s := by
  refine ⟨returned, fun p lower upper => ?_⟩
  by_cases freed : (s.tcbs p).freed = true
  · exact .inl freed
  · rw [Bool.not_eq_true] at freed
    exact .inr (waiting_of_returned few reached returned p ⟨lower, upper, freed⟩)

/-- With the alarm on time every run comes to the return of the scheduler. -/
theorem clocked_returns (few : specs.length < THREAD_MAX) (valid : ∀ spec ∈ specs, spec.Valid)
    (ticking : 1 ≤ timeSlice) {s : State × Nat}
    (reached : (clocked timeSlice qP qS specs).Reach onTime s) :
    (clocked timeSlice qP qS specs).Inevitable onTime (fun t => t.1.returned = true ∧
      (machine timeSlice qP qS specs).Reach Machine.anyStep t.1) s := by
  by_cases returned : s.1.returned = true
  · exact .now ⟨returned, reached.aside⟩
  rw [Bool.not_eq_true] at returned
  refine Machine.Inevitable.of_variant (Prod.lex Nat.lt_wfRel Nat.lt_wfRel).wf
    (fun measure s => (clocked timeSlice qP qS specs).Reach onTime s ∧ s.1.returned = false ∧
      measure = (s.1.allRemaining specs.length, s.1.timeSlice.toNat - s.2)) ?_ ?_ _
    ⟨reached, returned, rfl⟩
  · rintro _ s ⟨reached, going, _⟩
    obtain ⟨t, steps⟩ := step_defined few valid reached.aside going (some .SIGALRM)
    exact ⟨some .SIGALRM, _, nofun, congrArg (Option.map _) steps⟩
  · rintro _ s pending t ⟨reached, going, rfl⟩ permitted transition
    have later := reached.step permitted transition
    obtain ⟨steps, clock⟩ := Machine.beside_step transition
    have working := reach_working few valid ticking reached.aside
    obtain ⟨le, less⟩ := working.allRemaining steps
    by_cases returns : t.1.returned = true
    · exact .inl ⟨returns, later.aside⟩
    · rw [Bool.not_eq_true] at returns
      refine .inr ⟨_, Prod.lex_def.mpr ?_, later, returns, rfl⟩
      by_cases moves : s.1.currentThread ≠ 0 ∨ pending.isSome
      · exact .inl (less moves)
      · -- The idle thread goes on, and the alarm is a second nearer.
        simp only [not_or, not_not, Option.not_isSome_iff_eq_none] at moves
        obtain ⟨idle, none_pending⟩ := moves
        have slice := (working.consistent.step_watched steps working.watched).1
        have early := permitted none_pending
        have goes : (s.1.entry pending).isSome = false := by
          rw [working.consistent.idle_entry idle going, none_pending]
          rfl
        rw [goes, if_neg Bool.false_ne_true] at clock
        rcases Nat.lt_or_eq_of_le le with lower | same
        · exact .inl lower
        · refine .inr ⟨same, ?_⟩
          change t.1.timeSlice.toNat - t.2 < s.1.timeSlice.toNat - s.2
          omega

/-- The program returns: however often and whenever SIGTSTP comes, with the alarm on time every
run ends with the return of the scheduler, and then every thread has exited or is parked. -/
theorem program_returns (few : specs.length < THREAD_MAX) (valid : ∀ spec ∈ specs, spec.Valid)
    (ticking : 1 ≤ timeSlice) {s : State × Nat}
    (reached : (clocked timeSlice qP qS specs).Reach onTime s) :
    (clocked timeSlice qP qS specs).Inevitable onTime (fun t => Over specs.length t.1) s :=
  (clocked_returns few valid ticking reached).mono fun _ ends =>
    over_of_returned few ends.2 ends.1

/-- Two threads that sleep for three seconds and park, and one that computes. -/
theorem program_returns_three_threads :
    (clocked 2 1 1 [.enroll 1 2 3 2, .enroll 2 1 3 3, .fibonacci 4]).Inevitable onTime
      (fun t => Over 3 t.1) (start 2 1 1 [.enroll 1 2 3 2, .enroll 2 1 3 3, .fibonacci 4], 0) := by
  refine program_returns (by decide) (fun spec member => ?_) (by decide) (clocked_start ..)
  simp only [List.mem_cons, List.not_mem_nil, or_false] at member
  rcases member with rfl | rfl | rfl
  · exact ⟨by decide, by decide⟩
  · exact ⟨by decide, by decide⟩
  · change (1 : Int) ≤ 4
    decide

/-- With at most 49 threads that run `enroll` every thread exits, and leaves the lock free. -/
theorem everyone_exits (few : specs.length < THREAD_MAX) (valid : ∀ spec ∈ specs, spec.Valid)
    (ticking : 1 ≤ timeSlice) (room : 2 * enrolls specs < THREAD_MAX) {s : State × Nat}
    (reached : (clocked timeSlice qP qS specs).Reach onTime s) :
    (clocked timeSlice qP qS specs).Inevitable onTime (fun t => t.1.returned = true ∧
      t.1.AllExited specs.length ∧ t.1.readCount = 0 ∧ t.1.writeCount = 0) s := by
  refine (clocked_returns few valid ticking reached).mono fun t ends => ?_
  obtain ⟨returned, later⟩ := ends
  have exited := (reach_unwrapped few (reach_parksInside few room later)).2 returned
  have leak := (reach_covered few later).noLeak (reach_consistent few later)
  exact ⟨returned, exited, leak.exited exited.1⟩

theorem everyone_exits_forty_nine :
    (clocked 1 1 1 (List.replicate 49 (.enroll 1 2 0 0))).Inevitable onTime (fun t =>
      t.1.returned = true ∧ t.1.AllExited 49 ∧ t.1.readCount = 0 ∧ t.1.writeCount = 0)
      (start 1 1 1 (List.replicate 49 (.enroll 1 2 0 0)), 0) := by
  refine everyone_exits (by decide) (fun spec member => ?_) (by decide) (by decide)
    (clocked_start ..)
  rw [List.eq_of_mem_replicate member]
  exact ⟨by decide, by decide⟩

/-! ## Without sleepers -/

/-- Threads that do not sleep leave the idle thread nothing to do. -/
theorem reach_rotates (few : specs.length < THREAD_MAX)
    (loops : ∀ spec ∈ specs, spec.routine ≠ .enroll) {s : State}
    (reached : (machine timeSlice qP qS specs).Reach Machine.anyStep s) :
    s.Rotates specs.length := by
  have recorded : ∃ history, (dispatching timeSlice qP qS specs).Reach
      (fun state => Machine.anyStep state.1) (s, history) := reached.recorded
  obtain ⟨history, recorded⟩ := recorded
  exact (reach_follows few loops recorded).here

/-- What a thread has printed when the scheduler returns. -/
theorem told_of_returned (few : specs.length < THREAD_MAX)
    (sequential : ∀ spec ∈ specs, spec.Sequential) {s : State}
    (reached : (machine timeSlice qP qS specs).Reach Machine.anyStep s)
    (returned : s.returned = true) {p : Nat} {spec : Spec} (lower : 1 ≤ p)
    (named : specs[p - 1]? = some spec) : s.told p = spec.reference p spec.turns ++ [.exit p] := by
  have cons := reach_consistent few reached
  have bound : p - 1 < specs.length := (List.getElem?_eq_some_iff.mp named).1
  have parked : (s.tcbs p).freed = false → (s.tcbs p).Parked := fun living =>
    cons.parked p (waiting_of_returned few reached returned p ⟨lower, by omega, living⟩)
  -- Nobody parks without a lock, so the thread has exited.
  cases (reach_runs few sequential reached p spec lower named).progress with
  | exited _ told => exact told
  | fresh living env | behind living env =>
    rcases parked living with ⟨_, waits⟩ | ⟨_, waits⟩ <;> rw [env] at waits <;> cases waits

theorem Spec.Sequential.valid {spec : Spec} (sequential : spec.Sequential) :
    spec.Valid ∧ spec.routine ≠ .enroll := by
  cases spec with
  | fibonacci m | pm m => exact ⟨sequential.1, nofun⟩
  | enroll => cases sequential

/-- Without `enroll` no signal is needed: however the threads are preempted, the scheduler returns,
and then each thread has printed its values in order and its exit. -/
theorem sequential_returns (few : specs.length < THREAD_MAX)
    (sequential : ∀ spec ∈ specs, spec.Sequential) (ticking : 1 ≤ timeSlice) {s : State}
    (reached : (machine timeSlice qP qS specs).Reach Machine.anyStep s) :
    (machine timeSlice qP qS specs).Inevitable Machine.anyStep (fun t => t.returned = true ∧
      ∀ p spec, 1 ≤ p → specs[p - 1]? = some spec →
        t.told p = spec.reference p spec.turns ++ [.exit p]) s := by
  have valid : ∀ spec ∈ specs, spec.Valid := fun spec named => (sequential spec named).valid.1
  have loops : ∀ spec ∈ specs, spec.routine ≠ .enroll :=
    fun spec named => (sequential spec named).valid.2
  by_cases returned : s.returned = true
  · exact .now ⟨returned, fun p spec => told_of_returned few sequential reached returned⟩
  rw [Bool.not_eq_true] at returned
  refine Machine.Inevitable.of_variant Nat.lt_wfRel.wf
    (fun measure s => (machine timeSlice qP qS specs).Reach Machine.anyStep s ∧
      s.returned = false ∧ measure = s.allRemaining specs.length) ?_ ?_ _ ⟨reached, returned, rfl⟩
  · rintro _ s ⟨reached, going, _⟩
    obtain ⟨t, steps⟩ := step_defined few valid reached going none
    exact ⟨none, t, trivial, steps⟩
  · rintro _ s pending t ⟨reached, going, rfl⟩ _ steps
    have later := reached.step trivial steps
    have working := reach_working few valid ticking reached
    have created := (reach_rotates few loops reached).busy going
    by_cases returns : t.returned = true
    · exact .inl ⟨returns, fun p spec => told_of_returned few sequential later returns⟩
    · rw [Bool.not_eq_true] at returns
      exact .inr ⟨_, (working.allRemaining steps).2 (.inl created), later, returns, rfl⟩

theorem sequential_returns_two_threads :
    (machine 1 0 0 [.fibonacci 3, .pm 2]).Inevitable Machine.anyStep (fun t => t.returned = true ∧
      ∀ p spec, 1 ≤ p → [Spec.fibonacci 3, .pm 2][p - 1]? = some spec →
        t.told p = spec.reference p spec.turns ++ [.exit p])
      (start 1 0 0 [.fibonacci 3, .pm 2]) := by
  refine sequential_returns (by decide) (fun spec member => ?_) (by decide) (.initial rfl)
  simp only [List.mem_cons, List.not_mem_nil, or_false] at member
  rcases member with rfl | rfl <;> exact ⟨by decide, by decide⟩

end NTUSP.Threads
