import NTUSP.Threads.Overfull

/-!
# How many threads the scheduler can hold

With fewer than `THREAD_MAX` threads every write into a queue is inside its array, `head = size`
holds exactly when nobody is ready, and the loops over the sleeping set see every sleeper.
With `THREAD_MAX` threads, one more than the rings can tell apart, there is a run without that.
-/

namespace NTUSP.Threads

open NTUSP.Library

namespace State

variable {n hand p i status : Nat} {s t v : State} {pending : Option Signal}

/-- A thread that is neither in hand nor asleep nor a waiter. -/
def Ready (n hand : Nat) (s : State) (p : Nat) : Prop :=
  s.Alive n p ∧ p ≠ hand ∧ some p ∉ s.sleepingSet ∧ p ∉ s.waitingQueue.contents

/-- The loops over the sleeping set see a thread: the scan counts it down, and the test for a
sleeper finds it. -/
structure Seen (s : State) (p : Nat) : Prop where
  visited : ∃ i < THREAD_MAX, s.sleepingSet.getD i none = some p
  counted : (s.sleepScan.tcbs p).sleepingTime = (s.tcbs p).sleepingTime - s.timeSlice
  found : s.anySleeper (fun q => decide (q = p)) = true

/-- The tables show who is ready and who sleeps. -/
structure Fits (n hand : Nat) (s : State) : Prop where
  empty : s.readyQueue.head = s.readyQueue.size ↔ ∀ p, ¬ s.Ready n hand p
  seen : ∀ p, some p ∈ s.sleepingSet → s.Seen p

/-- A pass finds tables that fit where it scans and where it tests for an empty queue. -/
def PassFits (n : Nat) (s : State) (status : Nat) : Prop :=
  s.createIdle.Fits n (s.inHand status) ∧ (s.scans.settle status).Fits n 0

/-- What the scheduler needs of a state and of the step from it. -/
structure Room (n : Nat) (s : State) : Prop where
  fits : s.Fits n s.currentThread
  slots : ∀ pending, ∀ slot ∈ s.stepSlots pending, slot < THREAD_MAX
  passes : ∀ pending pass, s.entry pending = some pass → pass.1.PassFits n pass.2

/-! ## The loops over the sleeping set -/

theorem sleepScanStep_own (asleep : s.sleepingSet.getD p none = some p) :
    ((s.sleepScanStep p).tcbs p).sleepingTime = (s.tcbs p).sleepingTime - s.timeSlice := by
  unfold sleepScanStep
  rw [asleep]
  dsimp only
  split <;> simp [setTcb, readyPush]

/-- Another thread's turn leaves a sleeper's tcb and its entry alone. -/
theorem sleepScanStep_other (other : i ≠ p)
    (slot : ∀ q, s.sleepingSet.getD i none = some q → q = i) :
    (s.sleepScanStep i).tcbs p = s.tcbs p ∧
      (s.sleepScanStep i).sleepingSet.getD p none = s.sleepingSet.getD p none := by
  unfold sleepScanStep
  cases found : s.sleepingSet.getD i none with
  | none => exact ⟨rfl, rfl⟩
  | some q =>
    have apart : p ≠ q := by
      rw [slot q found]
      exact Ne.symm other
    dsimp only
    split
    · refine ⟨Function.update_of_ne apart .., ?_⟩
      change (s.sleepingSet.set i none).getD p none = _
      rw [List.getD_eq_getElem?_getD, List.getElem?_set_ne other, ← List.getD_eq_getElem?_getD]
    · exact ⟨Function.update_of_ne apart .., rfl⟩

theorem sleepScanStep_timeSlice (s : State) (i : Nat) :
    (s.sleepScanStep i).timeSlice = s.timeSlice := by
  rcases s.sleepScanStep_cases i with step | ⟨_, _, _, step | step⟩ <;> rw [step] <;> rfl

theorem Accounted.slot_of_getD (acc : s.Accounted n hand) {q : Nat}
    (found : s.sleepingSet.getD i none = some q) : q = i :=
  acc.slot i q (entry_of_getD found)

/-- The first turns of the scan count a sleeper down once they have passed its entry. -/
theorem Accounted.counted (acc : s.Accounted n hand)
    (asleep : s.sleepingSet.getD p none = some p) (count : Nat) :
    (((List.range count).foldl State.sleepScanStep s).tcbs p).sleepingTime =
        (s.tcbs p).sleepingTime - (if p < count then s.timeSlice else 0) ∧
      (count ≤ p →
        ((List.range count).foldl State.sleepScanStep s).sleepingSet.getD p none = some p) ∧
      ((List.range count).foldl State.sleepScanStep s).timeSlice = s.timeSlice ∧
      ((List.range count).foldl State.sleepScanStep s).Accounted n hand := by
  induction count with
  | zero => exact ⟨by simp, fun _ => asleep, rfl, acc⟩
  | succ count ih =>
    obtain ⟨time, entry, slice, here⟩ := ih
    rw [List.range_succ, List.foldl_append, List.foldl_cons, List.foldl_nil]
    refine ⟨?_, fun reached => ?_, (sleepScanStep_timeSlice _ _).trans slice,
      here.sleepScanStep count⟩
    · by_cases own : count = p
      · subst own
        rw [sleepScanStep_own (entry (Nat.le_refl _)), time, slice]
        simp
      · rw [(sleepScanStep_other own fun _ => here.slot_of_getD).1, time]
        have same : p < count + 1 ↔ p < count := by omega
        simp only [same]
    · rw [(sleepScanStep_other (by omega) fun _ => here.slot_of_getD).2]
      exact entry (by omega)

/-- With an entry in range for every thread, the loops see every sleeper. -/
theorem Accounted.seen (acc : s.Accounted n hand) (member : some p ∈ s.sleepingSet) :
    s.Seen p := by
  obtain ⟨i, entry⟩ := List.getElem?_of_mem member
  have same := acc.slot i p entry
  subst same
  have alive := (acc.alive_of_sleeping member).1
  have few := acc.few
  have inside : p < THREAD_MAX := Nat.lt_of_le_of_lt alive.2.1 few
  have asleep : s.sleepingSet.getD p none = some p := by
    rw [List.getD_eq_getElem?_getD, entry]
    rfl
  refine ⟨⟨p, inside, asleep⟩, ?_, ?_⟩
  · have time := (acc.counted asleep THREAD_MAX).1
    rw [if_pos inside] at time
    unfold State.sleepScan
    exact time
  · unfold anySleeper
    rw [List.any_eq_true]
    exact ⟨p, List.mem_range.mpr inside, by rw [asleep]; simp⟩

/-! ## The ready queue -/

theorem Accounted.ready_iff (acc : s.Accounted n hand) :
    p ∈ s.readyQueue.contents ↔ s.Ready n hand p := by
  have placed := acc.placed p
  unfold queued at placed
  constructor
  · intro member
    obtain ⟨alive, other⟩ := acc.alive_of_ready member
    have here := List.count_pos_iff.mpr member
    rw [if_pos ⟨alive, other⟩] at placed
    refine ⟨alive, other, fun asleep => ?_, fun waits => ?_⟩
    · have there := List.count_pos_iff.mpr asleep
      omega
    · have there := List.count_pos_iff.mpr waits
      omega
  · rintro ⟨alive, other, awake, free⟩
    rw [if_pos ⟨alive, other⟩, List.count_eq_zero.mpr awake, List.count_eq_zero.mpr free] at placed
    exact List.count_pos_iff.mp (by omega)

theorem Accounted.fits (acc : s.Accounted n hand) : s.Fits n hand where
  empty := by
    rw [← TcbQueue.contents_eq_nil acc.ready, List.eq_nil_iff_forall_not_mem]
    exact forall_congr' fun p => not_congr acc.ready_iff
  seen _ member := acc.seen member

theorem Enters.passFits (enters : Enters n s status) : s.PassFits n status :=
  ⟨enters.1.toAccounted.createIdle.fits, (enters.1.settle enters.2).fits⟩

/-- A consistent state whose tails are inside the arrays has room for the step from it. -/
theorem Consistent.room (cons : s.Consistent n) (below : s.Below) : s.Room n where
  fits := cons.accounted.fits
  slots pending := by
    cases steps : s.step pending with
    | none =>
      have stuck : s.body = none := by
        rw [step_eq_body] at steps
        exact Option.map_eq_none_iff.mp steps
      unfold stepSlots
      rw [stuck]
      simp
    | some t => exact (below.step steps).2
  passes pending pass entered := by
    obtain ⟨ends, ran, enters⟩ := Option.bind_eq_some_iff.mp entered
    exact (cons.enters (ends_of_body ran) enters).passFits

/-- `thread_setup` writes inside the array. -/
theorem Filled.spawnSlots_lt {j : Nat} (rest : List Spec) (filled : s.Filled j)
    (few : j + rest.length ≤ THREAD_MAX) :
    ∀ slot ∈ s.spawnSlots (j + 1) rest, slot < THREAD_MAX := by
  induction rest generalizing s j with
  | nil => simp [spawnSlots]
  | cons spec rest ih =>
    rw [List.length_cons] at few
    intro slot member
    rcases List.mem_cons.mp member with first | later
    · rw [first, filled.tail]
      omega
    · exact ih (filled.threadSetup (by omega) spec) (by omega) slot later

theorem Filled.below {j : Nat} (filled : s.Filled j) (few : j < THREAD_MAX) : s.Below where
  ready := by
    rw [filled.tail]
    exact few
  waiting := by
    rw [filled.waiting]
    decide

end State

open State

/-- The scheduler has room for the threads: the creation and the first pass write inside the
arrays and the tables fit, and so it is in every state of every run. -/
structure Holds (timeSlice qP qS : Int) (specs : List Spec) : Prop where
  created : ∀ slot ∈ (blank timeSlice qP qS).spawnSlots 1 specs ++
    (spawnThread (blank timeSlice qP qS) 1 specs).schedulerSlots 0, slot < THREAD_MAX
  first : (spawnThread (blank timeSlice qP qS) 1 specs).PassFits specs.length 0
  later : ∀ s, (machine timeSlice qP qS specs).Reach Machine.anyStep s → s.Room specs.length

variable {timeSlice qP qS : Int} {specs : List Spec} {s : State}
  {guard : State → Option Signal → Prop}

theorem reach_below (few : specs.length < THREAD_MAX)
    (reached : (machine timeSlice qP qS specs).Reach guard s) : s.Below := by
  refine reached.invariant _ ?_ ?_
  · intro state initial
    have same : state = start timeSlice qP qS specs := initial
    have spawned := filled timeSlice qP qS (Nat.le_of_lt few)
    rw [same]
    exact ((spawned.below few).scheduler 0).1
  · intro state pending next _ below _ steps
    exact (below.step steps).1

/-- Fewer threads than the arrays have cells fit. -/
theorem holds_few (few : specs.length < THREAD_MAX) : Holds timeSlice qP qS specs where
  created slot member := by
    have most := Nat.le_of_lt few
    rcases List.mem_append.mp member with spawns | scans
    · exact (blank_filled timeSlice qP qS).spawnSlots_lt specs (by omega) slot spawns
    · exact (((filled timeSlice qP qS most).below few).scheduler 0).2 slot scans
  first := by
    have spawned := spawned timeSlice qP qS few
    exact Enters.passFits ⟨spawned.entered, .inl spawned.idleRuns⟩
  later _ reached := (reach_consistent few reached).room (reach_below few reached)

/-- As many threads as the arrays have cells do not. -/
theorem not_holds_full (full : specs.length = THREAD_MAX) : ¬ Holds timeSlice qP qS specs := by
  intro holds
  have outside : ∀ slots : List Nat, (∀ slot ∈ slots, slot < THREAD_MAX) → THREAD_MAX ∉ slots :=
    fun slots inside member => Nat.lt_irrefl _ (inside _ member)
  rcases start_turn timeSlice qP qS full with writes | first
  · exact outside _ holds.created (List.mem_append_right _ writes)
  obtain ⟨s, reached, writes | turn⟩ := reach_turn first (k := 99) (by decide)
  · exact outside _ ((holds.later s reached).slots _) writes
  · obtain ⟨busy, nobody⟩ := turn.looks_full
    refine busy ((holds.later s reached).fits.empty.mpr fun p ready => ?_)
    obtain ⟨alive, other, awake, _⟩ := ready
    rw [full] at alive
    rcases nobody p alive with runs | asleep
    · exact other runs
    · exact awake asleep

/-- For every number of threads up to `THREAD_MAX`, all of it holds in every run exactly when
there are fewer. -/
theorem capacity (most : specs.length ≤ THREAD_MAX) :
    Holds timeSlice qP qS specs ↔ specs.length < THREAD_MAX := by
  constructor
  · intro holds
    exact Nat.lt_of_le_of_ne most fun full => not_holds_full full holds
  · exact holds_few

/-- Three threads that compute, sleep and compute. -/
theorem capacity_three : Holds 1 1 1 [.fibonacci 3, .enroll 1 2 1 1, .pm 2] :=
  (capacity (by decide)).mpr (by decide)

/-- The first of a hundred threads is preempted and put behind the array. -/
theorem hundred_overflow :
    THREAD_MAX ∈ (start 1 1 1 (List.replicate 100 (.fibonacci 2))).stepSlots (some .SIGTSTP) ∧
      ¬ Holds 1 1 1 (List.replicate 100 (.fibonacci 2)) := by
  have writes : THREAD_MAX ∈
      (start 1 1 1 (List.replicate 100 (.fibonacci 2))).stepSlots (some .SIGTSTP) := by
    decide +kernel
  refine ⟨writes, fun holds => ?_⟩
  exact Nat.lt_irrefl _ ((holds.later _ (.initial rfl)).slots _ _ writes)

end NTUSP.Threads
