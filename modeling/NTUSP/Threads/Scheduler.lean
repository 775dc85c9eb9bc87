import NTUSP.Threads.Accounting

/-!
# One pass through the scheduler

A thread enters `scheduler` with a status; the pass wakes sleepers, scans the
waiting queue, puts the entering thread away and picks the next one. `Kept` says
what the pass leaves alone. `Entered` is what a thread owes the scheduler when it
enters, and `Consistent` what holds when the next thread starts.

The scan of the waiting queue moves `head` while it reads at its own index, so it
releases the waiters it reads only if it releases every one. It does: a pass in
which some but not all of the waiters may proceed is never entered.
-/

namespace NTUSP.Threads

open NTUSP.Library

/-- What the scheduler never writes in the tcb of a created thread. -/
structure Tcb.Kept (old new : Tcb) : Prop where
  id : new.id = old.id
  routine : new.routine = old.routine
  args : new.args = old.args
  waitingFor : new.waitingFor = old.waitingFor
  env : new.env = old.env
  freed : new.freed = old.freed

theorem Tcb.Kept.refl (tcb : Tcb) : tcb.Kept tcb := ⟨rfl, rfl, rfl, rfl, rfl, rfl⟩

theorem Tcb.Kept.trans {old middle new : Tcb} (first : old.Kept middle) (second : middle.Kept new) :
    old.Kept new where
  id := second.id.trans first.id
  routine := second.routine.trans first.routine
  args := second.args.trans first.args
  waitingFor := second.waitingFor.trans first.waitingFor
  env := second.env.trans first.env
  freed := second.freed.trans first.freed

/-- A tcb as `read_lock` or `write_lock` leaves it in the waiting queue. -/
def Tcb.Parked (tcb : Tcb) : Prop :=
  (tcb.waitingFor = 4 ∧ tcb.env = .readLock) ∨ (tcb.waitingFor = 5 ∧ tcb.env = .writeLock)

namespace State

/-- What a pass leaves alone, the exit of a thread apart. -/
structure Kept (s t : State) : Prop where
  tcb : ∀ p, p ≠ 0 → (s.tcbs p).Kept (t.tcbs p)
  readCount : t.readCount = s.readCount
  writeCount : t.writeCount = s.writeCount

/-- What the scans leave alone. -/
structure Scanned (s t : State) : Prop extends s.Kept t where
  currentThread : t.currentThread = s.currentThread
  returned : t.returned = s.returned

variable {s t u : State} {n hand p i : Nat}

theorem Kept.trans (first : s.Kept t) (second : t.Kept u) : s.Kept u where
  tcb p created := (first.tcb p created).trans (second.tcb p created)
  readCount := second.readCount.trans first.readCount
  writeCount := second.writeCount.trans first.writeCount

theorem Scanned.refl (s : State) : s.Scanned s where
  tcb _ _ := .refl _
  readCount := rfl
  writeCount := rfl
  currentThread := rfl
  returned := rfl

theorem Scanned.trans (first : s.Scanned t) (second : t.Scanned u) : s.Scanned u where
  toKept := first.toKept.trans second.toKept
  currentThread := second.currentThread.trans first.currentThread
  returned := second.returned.trans first.returned

theorem Scanned.setTcb {tcb : Tcb} (kept : (s.tcbs p).Kept tcb) : s.Scanned (s.setTcb p tcb) where
  tcb q _ := by
    by_cases same : q = p
    · rw [same]
      simpa [State.setTcb] using kept
    · simpa [State.setTcb, same] using Tcb.Kept.refl _
  readCount := rfl
  writeCount := rfl
  currentThread := rfl
  returned := rfl

/-! ## The sleeping scan -/

theorem entry_of_getD {entries : List (Option Nat)} (found : entries.getD i none = some p) :
    entries[i]? = some (some p) := by
  rw [List.getD_eq_getElem?_getD] at found
  cases entry : entries[i]? with
  | none => simp [entry] at found
  | some slot =>
    rw [entry, Option.getD_some] at found
    rw [found]

/-- A turn of the sleeping scan skips an entry, counts it down, or wakes it. -/
theorem sleepScanStep_cases (s : State) (i : Nat) :
    s.sleepScanStep i = s ∨ ∃ p time, s.sleepingSet[i]? = some (some p) ∧
      (s.sleepScanStep i = s.setTcb p { s.tcbs p with sleepingTime := time } ∨
        s.sleepScanStep i = s.awaken i p { s.tcbs p with sleepingTime := time, keepgo := true }) := by
  unfold sleepScanStep
  split
  · exact .inl rfl
  · rename_i p found
    refine .inr ⟨p, (s.tcbs p).sleepingTime - s.timeSlice, entry_of_getD found, ?_⟩
    dsimp only
    split
    · exact .inr rfl
    · exact .inl rfl

/-- What every turn keeps, the whole scan keeps. -/
theorem sleepScan_invariant (property : State → Prop)
    (turn : ∀ s i, property s → property (s.sleepScanStep i)) (holds : property s) :
    property s.sleepScan := by
  unfold sleepScan
  induction List.range THREAD_MAX generalizing s with
  | nil => exact holds
  | cons i rest ih => exact ih (turn s i holds)

theorem sleepScan_scanned (s : State) : s.Scanned s.sleepScan := by
  refine sleepScan_invariant s.Scanned (fun t i scanned => scanned.trans ?_) (.refl s)
  rcases t.sleepScanStep_cases i with skipped | ⟨p, time, _, counted | woken⟩
  · rw [skipped]
    exact .refl t
  · rw [counted]
    exact .setTcb ⟨rfl, rfl, rfl, rfl, rfl, rfl⟩
  · rw [woken]
    have written : t.Scanned (t.setTcb p { t.tcbs p with sleepingTime := time, keepgo := true }) :=
      .setTcb ⟨rfl, rfl, rfl, rfl, rfl, rfl⟩
    exact { written with }

theorem sleepScan_waitingQueue (s : State) : s.sleepScan.waitingQueue = s.waitingQueue := by
  refine sleepScan_invariant (fun t => t.waitingQueue = s.waitingQueue)
    (fun t i same => ?_) rfl
  rcases t.sleepScanStep_cases i with step | ⟨p, time, _, step | step⟩ <;> rw [step] <;> exact same

theorem Accounted.sleepScanStep (acc : s.Accounted n hand) (i : Nat) :
    (s.sleepScanStep i).Accounted n hand := by
  rcases s.sleepScanStep_cases i with skipped | ⟨p, time, asleep, counted | woken⟩
  · rw [skipped]
    exact acc
  · rw [counted]
    have alive := (acc.alive_of_sleeping (List.mem_of_getElem? asleep)).1
    have shape : (s.setTcb p { s.tcbs p with sleepingTime := time }).Shape :=
      acc.toShape.setTcb (acc.ids p) (created_of_alive alive)
    exact acc.of_queued shape (fun q _ => setTcb_freed (by rfl) q) fun q => rfl
  · rw [woken]
    exact acc.awaken asleep (acc.ids p) rfl

theorem Accounted.sleepScan (acc : s.Accounted n hand) : s.sleepScan.Accounted n hand :=
  sleepScan_invariant (Accounted n hand) (fun _ i acc => acc.sleepScanStep i) acc

/-! ## The waiting scan -/

/-- What the waiting queue and the lock counts satisfy between any two steps. -/
structure Waiters (s : State) : Prop where
  parked : ∀ p ∈ s.waitingQueue.contents, (s.tcbs p).Parked
  exclusive : s.writeCount ≠ 0 → s.readCount = 0

/-- A thread enters the scheduler: if only readers hold the lock, every waiter the scan
reads is a writer. -/
structure Entered (n hand : Nat) (s : State) : Prop extends s.Accounted n hand, s.Waiters where
  uniform : ¬ s.waitingQueue.Wrapped → s.writeCount = 0 → s.readCount ≠ 0 →
    ∀ p ∈ s.waitingQueue.contents, (s.tcbs p).waitingFor = 5

/-- The first `count` waiters move to the ready queue. -/
def releases (s : State) : Nat → State
  | 0 => s
  | count + 1 => s.release.releases count

/-- The scan reads the entries of an unwrapped queue. -/
theorem mem_waiting (acc : s.Accounted n hand) (reached : s.waitingQueue.head ≤ i)
    (inside : i < s.waitingQueue.size) :
    s.waitingQueue.arr.getD i 0 ∈ s.waitingQueue.contents := by
  have sizeIn := acc.waiting.size
  unfold TcbQueue.contents Ring.segment Ring.window
  rw [Ring.gap_of_le (by omega) sizeIn]
  refine List.mem_map.mpr ⟨i - s.waitingQueue.head, List.mem_range.mpr (by omega), ?_⟩
  rw [Nat.add_sub_cancel' reached, Nat.mod_eq_of_lt (by omega)]
  rfl

theorem mayProceed_of_writer (writer : s.writeCount ≠ 0) (p : Nat) : s.mayProceed p = false := by
  simp [mayProceed, writer]

theorem mayProceed_of_reader (reader : s.readCount ≠ 0) (waits : (s.tcbs p).waitingFor = 5) :
    s.mayProceed p = false := by
  simp [mayProceed, reader, waits]

theorem mayProceed_of_free (parked : (s.tcbs p).Parked) (unwritten : s.writeCount = 0)
    (unread : s.readCount = 0) : s.mayProceed p = true := by
  rcases parked with ⟨waits, _⟩ | ⟨waits, _⟩ <;> simp [mayProceed, waits, unwritten, unread]

/-- A scan that lets nobody proceed changes nothing. -/
theorem waitScanFrom_blocked {count : Nat}
    (blocked : ∀ j, i ≤ j → j < i + count → s.mayProceed (s.waitingQueue.arr.getD j 0) = false) :
    s.waitScanFrom i count = s := by
  induction count generalizing i with
  | zero => rfl
  | succ count ih =>
    have still : s.waitScanStep i = s := by
      simp only [waitScanStep, blocked i (Nat.le_refl i) (by omega)]
      rfl
    rw [waitScanFrom, still]
    exact ih fun j reached inside => blocked j (by omega) (by omega)

/-- An empty queue is not scanned. -/
theorem waitScan_of_nobody (nobody : s.waitingQueue.head = s.waitingQueue.size) :
    s.waitScan = s := by
  unfold waitScan
  rw [nobody, Nat.sub_self]
  rfl

/-- A scan that starts at `head` and lets everyone proceed releases everyone. -/
theorem waitScanFrom_free {count : Nat} (unwritten : s.writeCount = 0) (unread : s.readCount = 0)
    (sizeIn : s.waitingQueue.head + count < THREAD_MAX)
    (parked : ∀ j, s.waitingQueue.head ≤ j → j < s.waitingQueue.head + count →
      (s.tcbs (s.waitingQueue.arr.getD j 0)).Parked) :
    s.waitScanFrom s.waitingQueue.head count = s.releases count := by
  induction count generalizing s with
  | zero => rfl
  | succ count ih =>
    have first : (s.tcbs (s.waitingQueue.arr.getD s.waitingQueue.head 0)).Parked :=
      parked _ (Nat.le_refl _) (by omega)
    have turn : s.waitScanStep s.waitingQueue.head = s.release := by
      simp only [waitScanStep, mayProceed_of_free first unwritten unread]
      rfl
    have moved : s.waitingQueue.head + 1 = s.release.waitingQueue.head :=
      (Nat.mod_eq_of_lt (by omega)).symm
    rw [waitScanFrom, turn, moved, releases]
    refine ih unwritten unread ?_ fun j reached inside => ?_
    · omega
    · exact parked j (by omega) (by omega)

/-- The scan releases nobody, or it releases every waiter because the lock is free. -/
theorem Entered.waitScan_cases (entered : s.Entered n hand) :
    (s.waitScan = s ∧ (s.waitingQueue.Wrapped ∨ s.writeCount ≠ 0 ∨ s.readCount ≠ 0)) ∨
    (¬ s.waitingQueue.Wrapped ∧ s.writeCount = 0 ∧ s.readCount = 0 ∧
      s.waitScan = s.releases (s.waitingQueue.size - s.waitingQueue.head)) := by
  have sizeIn := entered.waiting.size
  by_cases wrapped : s.waitingQueue.Wrapped
  · refine .inl ⟨waitScanFrom_blocked fun j reached inside => ?_, .inl wrapped⟩
    unfold TcbQueue.Wrapped at wrapped
    omega
  have ordered : s.waitingQueue.head ≤ s.waitingQueue.size := Nat.le_of_not_lt wrapped
  by_cases writer : s.writeCount ≠ 0
  · exact .inl ⟨waitScanFrom_blocked fun j _ _ => mayProceed_of_writer writer _, .inr (.inl writer)⟩
  have unwritten : s.writeCount = 0 := Classical.not_not.mp writer
  by_cases reader : s.readCount ≠ 0
  · refine .inl ⟨waitScanFrom_blocked fun j reached inside => ?_, .inr (.inr reader)⟩
    have member := mem_waiting entered.toAccounted reached (by omega)
    exact mayProceed_of_reader reader (entered.uniform wrapped unwritten reader _ member)
  have unread : s.readCount = 0 := Classical.not_not.mp reader
  refine .inr ⟨wrapped, unwritten, unread, waitScanFrom_free unwritten unread (by omega) ?_⟩
  intro j reached inside
  exact entered.parked _ (mem_waiting entered.toAccounted reached (by omega))

theorem releases_scanned (s : State) (count : Nat) : s.Scanned (s.releases count) := by
  induction count generalizing s with
  | zero => exact .refl s
  | succ count ih =>
    have released : s.Scanned s.release := { Scanned.refl s with }
    exact released.trans (ih s.release)

/-- Releasing every waiter keeps the accounts and empties the queue. -/
theorem Accounted.releases {count : Nat} (acc : s.Accounted n hand)
    (all : s.waitingQueue.head + count = s.waitingQueue.size) :
    (s.releases count).Accounted n hand ∧
      (s.releases count).waitingQueue.head = (s.releases count).waitingQueue.size := by
  induction count generalizing s with
  | zero => exact ⟨acc, by simpa [State.releases] using all⟩
  | succ count ih =>
    have sizeIn := acc.waiting.size
    refine ih (acc.release (by omega)) ?_
    have moved : s.release.waitingQueue.head = s.waitingQueue.head + 1 :=
      Nat.mod_eq_of_lt (by omega)
    have size : s.release.waitingQueue.size = s.waitingQueue.size := rfl
    omega

/-- The waiting queue behind the scan: as it was, or empty. -/
theorem Entered.waitScan (entered : s.Entered n hand) :
    s.waitScan.Accounted n hand ∧ s.Scanned s.waitScan ∧
    ((s.waitScan.waitingQueue = s.waitingQueue ∧
        (s.waitingQueue.Wrapped ∨ s.writeCount ≠ 0 ∨ s.readCount ≠ 0)) ∨
      (¬ s.waitingQueue.Wrapped ∧ ¬ s.waitScan.waitingQueue.Wrapped ∧
        s.waitScan.waitingQueue.contents = [])) := by
  rcases entered.waitScan_cases with ⟨same, held⟩ | ⟨ordered, _, _, all⟩
  · rw [same]
    exact ⟨entered.toAccounted, .refl s, .inl ⟨rfl, held⟩⟩
  · have positions : s.waitingQueue.head + (s.waitingQueue.size - s.waitingQueue.head) =
        s.waitingQueue.size := Nat.add_sub_cancel' (Nat.le_of_not_lt ordered)
    obtain ⟨acc, emptied⟩ := entered.toAccounted.releases positions
    rw [all]
    refine ⟨acc, releases_scanned s _, .inr ⟨ordered, ?_, ?_⟩⟩
    · unfold TcbQueue.Wrapped
      omega
    · exact (TcbQueue.contents_eq_nil acc.waiting).mpr emptied

/-- What the waiters rely on survives a scan of other lists. -/
theorem Entered.of_scanned (entered : s.Entered n hand) (acc : t.Accounted n hand)
    (scanned : s.Scanned t) (waiting : t.waitingQueue = s.waitingQueue) : t.Entered n hand := by
  have kept : ∀ p ∈ s.waitingQueue.contents, (s.tcbs p).Kept (t.tcbs p) := fun p member =>
    scanned.tcb p (Accounted.created_of_alive (entered.alive_of_waiting member).1)
  refine { acc with parked := ?_, exclusive := ?_, uniform := ?_ }
  · intro p member
    rw [waiting] at member
    unfold Tcb.Parked
    rw [(kept p member).waitingFor, (kept p member).env]
    exact entered.parked p member
  · rw [scanned.writeCount, scanned.readCount]
    exact entered.exclusive
  · intro ordered unwritten reader p member
    rw [waiting] at ordered member
    rw [scanned.writeCount] at unwritten
    rw [scanned.readCount] at reader
    rw [(kept p member).waitingFor]
    exact entered.uniform ordered unwritten reader p member

/-! ## Entering, putting the thread away, and choosing the next -/

theorem createIdle_scanned (s : State) : s.Scanned s.createIdle := by
  unfold createIdle
  split
  · exact
      { tcb := fun p created => by
          simpa [State.setTcb, print, created] using Tcb.Kept.refl _
        readCount := rfl
        writeCount := rfl
        currentThread := rfl
        returned := rfl }
  · exact .refl s

theorem Accounted.createIdle (acc : s.Accounted n hand) : s.createIdle.Accounted n hand := by
  have kept := s.createIdle_scanned
  have ids : ∀ p, (s.createIdle.tcbs p).id = p := by
    intro p
    by_cases zero : p = 0
    · unfold State.createIdle
      split
      · simp [State.setTcb, zero]
      · exact acc.ids p
    · rw [(kept.tcb p zero).id]
      exact acc.ids p
  refine acc.of_same ?_ ?_ ?_ ids ?_ fun p created => (kept.tcb p created).freed
  all_goals
    unfold State.createIdle
    split
    · simp [State.setTcb, print]
    · first | rfl | exact acc.idle

theorem createIdle_waitingQueue (s : State) : s.createIdle.waitingQueue = s.waitingQueue := by
  unfold createIdle
  split <;> rfl

/-- The thread in hand when the scheduler is entered: after a signal and after an exit it
is the current one, otherwise it has put itself into a list. -/
def inHand (s : State) (status : Nat) : Nat :=
  if status = 1 ∨ status = 3 then s.currentThread else 0

/-- The state with the tcb of an exiting thread freed. -/
def exited (s : State) (status : Nat) : State :=
  if status = 3 then s.setCurrent { s.current with freed := true } else s

theorem exited_returned (s : State) (status : Nat) : (s.exited status).returned = s.returned := by
  unfold exited
  split <;> rfl

theorem settle_scanned (s : State) (status : Nat) :
    (s.exited status).Scanned (s.settle status) := by
  unfold settle exited
  by_cases signalled : status = 1
  · rw [if_pos signalled, if_neg (by omega)]
    split
    · exact { Scanned.refl s with }
    · exact .refl s
  · rw [if_neg signalled]
    exact .refl _

theorem settle_waitingQueue (s : State) (status : Nat) :
    (s.settle status).waitingQueue = s.waitingQueue := by
  unfold settle
  split
  · split <;> rfl
  · split <;> rfl

theorem Accounted.settle {status : Nat} (acc : s.Accounted n (s.inHand status))
    (running : s.currentThread = 0 ∨ s.Alive n s.currentThread) :
    (s.settle status).Accounted n 0 := by
  unfold State.settle
  unfold inHand at acc
  split
  · rename_i signalled
    rw [if_pos (.inl signalled)] at acc
    have id : s.current.id = s.currentThread := acc.ids _
    rw [id]
    split
    · rename_i created
      exact acc.readyPush (running.resolve_left created)
    · rename_i idle
      rw [Classical.not_not] at idle
      rwa [idle] at acc
  · split
    · rename_i exits
      rw [if_pos (.inr exits)] at acc
      rcases running with idle | alive
      · rw [idle] at acc
        refine acc.of_same rfl rfl rfl (fun p => ?_) ?_ fun p created => ?_
        · by_cases zero : p = 0
          · simpa [setCurrent, current, State.setTcb, idle, zero] using acc.ids 0
          · simpa [setCurrent, State.setTcb, idle, zero] using acc.ids p
        · simpa [setCurrent, current, State.setTcb, idle] using acc.idle
        · simp [setCurrent, State.setTcb, idle, created]
      · exact acc.exit (acc.ids _) rfl (created_of_alive alive)
    · rwa [if_neg (by omega)] at acc

/-- A test that no sleeper passes. -/
theorem anySleeper_eq_false {test : Nat → Bool}
    (fails : ∀ p, some p ∈ s.sleepingSet → test p = false) : s.anySleeper test = false := by
  unfold anySleeper
  rw [List.any_eq_false]
  intro i _
  split
  · simp
  · rename_i p found
    simp [fails p (List.mem_of_getElem? (entry_of_getD found))]

/-- The loop over the sleeping set sees every sleeper. -/
theorem Accounted.no_sleeper (acc : s.Accounted n hand)
    (awake : s.anySleeper (fun _ => true) = false) (p : Nat) : some p ∉ s.sleepingSet := by
  intro member
  obtain ⟨i, entry⟩ := List.getElem?_of_mem member
  have same := acc.slot i p entry
  have alive := (acc.alive_of_sleeping member).1
  have few := acc.few
  have bound := alive.2.1
  unfold anySleeper at awake
  rw [List.any_eq_false] at awake
  have missed := awake i (List.mem_range.mpr (by omega))
  simp [List.getD_eq_getElem?_getD, entry] at missed

/-- Lines 123 to 133 find no sleeper in the ready queue. -/
theorem Accounted.dropSleeping (acc : s.Accounted n hand) (turns : Nat) :
    s.dropSleeping turns = s := by
  cases turns with
  | zero => rfl
  | succ turns =>
    unfold State.dropSleeping
    split
    · rfl
    · rename_i nonempty
      have first := TcbQueue.contents_advance acc.ready nonempty
      dsimp only
      rw [if_neg]
      rw [Bool.not_eq_true]
      refine anySleeper_eq_false fun p member => ?_
      rw [acc.ids, acc.ids, decide_eq_false_iff_not]
      intro same
      have once := acc.queued_le_one p
      have inSet := List.count_pos_iff.mpr member
      rw [queued, first, same, List.count_cons_self] at once
      rw [same] at inSet
      omega

/-- The thread the pass ends with: the idle one while somebody sleeps, the first ready
one, or none because the scheduler returns. -/
theorem Accounted.dispatch_cases (acc : s.Accounted n 0) :
    (s.dispatch = { s with currentThread := 0 }) ∨
    (s.readyQueue.contents = [] ∧ (∀ p, some p ∉ s.sleepingSet) ∧
      s.dispatch = { s.setTcb 0 { s.tcbs 0 with freed := true } with
        currentThread := 0, returned := true }) ∨
    (s.readyQueue.head ≠ s.readyQueue.size ∧
      s.dispatch = { s with
        currentThread := s.readyQueue.arr.getD s.readyQueue.head 0
        readyQueue := s.readyQueue.advance }) := by
  unfold dispatch
  rw [acc.dropSleeping]
  by_cases nonempty : s.readyQueue.head ≠ s.readyQueue.size
  · exact .inr (.inr ⟨nonempty, by simp only [if_neg nonempty]⟩)
  · rw [Classical.not_not] at nonempty
    rw [if_pos nonempty]
    cases awake : s.anySleeper fun _ => true with
    | true => exact .inl rfl
    | false =>
      exact .inr (.inl ⟨(TcbQueue.contents_eq_nil acc.ready).mpr nonempty, acc.no_sleeper awake, rfl⟩)

/-- The thread that runs next is the one in hand. -/
theorem Accounted.dispatch (acc : s.Accounted n 0) :
    s.dispatch.Accounted n s.dispatch.currentThread ∧
      (s.dispatch.currentThread = 0 ∨ s.dispatch.Alive n s.dispatch.currentThread) := by
  rcases acc.dispatch_cases with step | ⟨_, _, step⟩ | ⟨nonempty, step⟩ <;> rw [step]
  · exact ⟨acc.of_same rfl rfl rfl acc.ids acc.idle fun p _ => rfl, .inl rfl⟩
  · refine ⟨acc.of_same rfl rfl rfl (fun p => ?_) ?_ fun p created => ?_, .inl rfl⟩
    · by_cases zero : p = 0
      · simpa [State.setTcb, zero] using acc.ids 0
      · simpa [State.setTcb, zero] using acc.ids p
    · simpa [State.setTcb] using acc.idle
    · simp [State.setTcb, created]
  · have first := TcbQueue.contents_advance acc.ready nonempty
    refine ⟨(acc.dequeue nonempty).of_same rfl rfl rfl acc.ids acc.idle fun p _ => rfl, .inr ?_⟩
    exact (acc.alive_of_ready (by rw [first]; exact List.mem_cons_self)).1

theorem Accounted.dispatch_kept (acc : s.Accounted n 0) : s.Kept s.dispatch := by
  rcases acc.dispatch_cases with step | ⟨_, _, step⟩ | ⟨_, step⟩ <;> rw [step]
  · exact { Scanned.refl s with }
  · exact
      { tcb := fun p created => by simpa [State.setTcb, created] using Tcb.Kept.refl _
        readCount := rfl
        writeCount := rfl }
  · exact { Scanned.refl s with }

theorem Accounted.dispatch_waitingQueue (acc : s.Accounted n 0) :
    s.dispatch.waitingQueue = s.waitingQueue := by
  rcases acc.dispatch_cases with step | ⟨_, _, step⟩ | ⟨_, step⟩ <;> simp only [step, setTcb]

/-! ## The whole pass -/

/-- What holds whenever a thread runs: the accounts with that thread in hand, and where
nobody writes, the waiters an unwrapped queue lists are writers. -/
structure Consistent (n : Nat) (s : State) : Prop extends s.Waiters where
  accounted : s.Accounted n s.currentThread
  running : s.currentThread = 0 ∨ s.Alive n s.currentThread
  settled : ¬ s.waitingQueue.Wrapped → s.writeCount = 0 →
    ∀ p ∈ s.waitingQueue.contents, (s.tcbs p).waitingFor = 5

/-- The state behind the two scans. -/
def scans (s : State) : State := s.createIdle.sleepScan.waitScan

/-- Between the two scans. -/
theorem Entered.slept (entered : s.Entered n hand) :
    s.createIdle.sleepScan.Entered n hand ∧ s.Scanned s.createIdle.sleepScan ∧
      s.createIdle.sleepScan.waitingQueue = s.waitingQueue := by
  have scanned := s.createIdle_scanned.trans s.createIdle.sleepScan_scanned
  have waiting : s.createIdle.sleepScan.waitingQueue = s.waitingQueue := by
    rw [sleepScan_waitingQueue, createIdle_waitingQueue]
  exact ⟨entered.of_scanned entered.toAccounted.createIdle.sleepScan scanned waiting, scanned,
    waiting⟩

/-- Behind the scans: the accounts, and the waiting queue as it was or empty. -/
theorem Entered.scans (entered : s.Entered n hand) :
    s.scans.Accounted n hand ∧ s.Scanned s.scans ∧
    ((s.scans.waitingQueue = s.waitingQueue ∧
        (s.waitingQueue.Wrapped ∨ s.writeCount ≠ 0 ∨ s.readCount ≠ 0)) ∨
      (¬ s.waitingQueue.Wrapped ∧ ¬ s.scans.waitingQueue.Wrapped ∧
        s.scans.waitingQueue.contents = [])) := by
  obtain ⟨inner, scanned, waiting⟩ := entered.slept
  obtain ⟨acc, last, outcome⟩ := inner.waitScan
  rw [waiting, scanned.writeCount, scanned.readCount] at outcome
  exact ⟨acc, scanned.trans last, outcome⟩

variable {status : Nat}

/-- Putting the entering thread away empties the hand. -/
theorem Entered.settle (entered : s.Entered n (s.inHand status))
    (running : s.currentThread = 0 ∨ s.Alive n s.currentThread) :
    (s.scans.settle status).Accounted n 0 := by
  obtain ⟨acc, scanned, _⟩ := entered.scans
  refine Accounted.settle ?_ ?_
  · unfold inHand at acc ⊢
    rwa [scanned.currentThread]
  · rw [scanned.currentThread]
    refine running.imp_right fun alive => ?_
    have created := Accounted.created_of_alive alive
    exact ⟨alive.1, alive.2.1, by rw [(scanned.tcb _ created).freed]; exact alive.2.2⟩

theorem exited_kept (scanned : s.Scanned t) : (s.exited status).Kept (t.exited status) := by
  unfold exited
  split
  · refine
      { tcb := fun p created => ?_
        readCount := scanned.readCount
        writeCount := scanned.writeCount }
    unfold setCurrent current setTcb
    rw [scanned.currentThread]
    have kept := scanned.tcb p created
    by_cases same : p = s.currentThread
    · subst same
      simp only [Function.update_self]
      exact { kept with freed := rfl }
    · simpa [same] using kept
  · exact scanned.toKept

/-- A pass keeps the tcbs of the created threads, except that the exiting one is freed. -/
theorem Entered.scheduler_kept (entered : s.Entered n (s.inHand status))
    (running : s.currentThread = 0 ∨ s.Alive n s.currentThread) :
    (s.exited status).Kept (s.scheduler status) := by
  obtain ⟨_, scanned, _⟩ := entered.scans
  exact (exited_kept scanned).trans
    ((settle_scanned s.scans status).toKept.trans (entered.settle running).dispatch_kept)

/-- The waiting queue behind a pass: as it was, or empty. -/
theorem Entered.scheduler_waiting (entered : s.Entered n (s.inHand status))
    (running : s.currentThread = 0 ∨ s.Alive n s.currentThread) :
    ((s.scheduler status).waitingQueue = s.waitingQueue ∧
        (s.waitingQueue.Wrapped ∨ s.writeCount ≠ 0 ∨ s.readCount ≠ 0)) ∨
      (¬ s.waitingQueue.Wrapped ∧ ¬ (s.scheduler status).waitingQueue.Wrapped ∧
        (s.scheduler status).waitingQueue.contents = []) := by
  obtain ⟨_, _, outcome⟩ := entered.scans
  have last : (s.scheduler status).waitingQueue = s.scans.waitingQueue := by
    change (s.scans.settle status).dispatch.waitingQueue = _
    rw [(entered.settle running).dispatch_waitingQueue, settle_waitingQueue]
  rw [last]
  exact outcome

/-- A pass leads from an entered state to a consistent one. -/
theorem Entered.scheduler (entered : s.Entered n (s.inHand status))
    (running : s.currentThread = 0 ∨ s.Alive n s.currentThread) :
    (s.scheduler status).Consistent n := by
  have kept := entered.scheduler_kept running
  obtain ⟨accounted, dispatched⟩ := (entered.settle running).dispatch
  have counts : (s.scheduler status).writeCount = s.writeCount ∧
      (s.scheduler status).readCount = s.readCount := by
    rw [kept.writeCount, kept.readCount]
    unfold exited
    split <;> exact ⟨rfl, rfl⟩
  have tcb : ∀ p ∈ s.waitingQueue.contents,
      ((s.scheduler status).tcbs p).waitingFor = (s.tcbs p).waitingFor ∧
      ((s.scheduler status).tcbs p).env = (s.tcbs p).env := by
    intro p member
    have same := kept.tcb p (Accounted.created_of_alive (entered.alive_of_waiting member).1)
    rw [same.waitingFor, same.env]
    unfold exited
    split
    · by_cases current : p = s.currentThread
      · simp [setCurrent, State.setTcb, State.current, current]
      · simp [setCurrent, State.setTcb, current]
    · exact ⟨rfl, rfl⟩
  refine
    { accounted := accounted
      running := dispatched
      parked := fun p member => ?_
      exclusive := ?_
      settled := fun ordered unwritten p member => ?_ }
  · rcases entered.scheduler_waiting running with ⟨same, _⟩ | ⟨_, _, empty⟩
    · rw [same] at member
      unfold Tcb.Parked
      rw [(tcb p member).1, (tcb p member).2]
      exact entered.parked p member
    · simp [empty] at member
  · rw [counts.1, counts.2]
    exact entered.exclusive
  · rcases entered.scheduler_waiting running with ⟨same, held⟩ | ⟨_, _, empty⟩
    · rw [same] at ordered member
      rw [counts.1] at unwritten
      rw [(tcb p member).1]
      have reader := (held.resolve_left ordered).resolve_left (Classical.not_not.mpr unwritten)
      exact entered.uniform ordered unwritten reader p member
    · simp [empty] at member

/-- The scheduler returns only when no created thread is ready or asleep. -/
theorem Entered.scheduler_returned (entered : s.Entered n (s.inHand status))
    (running : s.currentThread = 0 ∨ s.Alive n s.currentThread) (before : s.returned = false)
    (returned : (s.scheduler status).returned = true) :
    ∀ p, (s.scheduler status).Alive n p → p ∈ (s.scheduler status).waitingQueue.contents := by
  have settled := entered.settle running
  have still : (s.scans.settle status).returned = false := by
    obtain ⟨_, scanned, _⟩ := entered.scans
    rw [(settle_scanned s.scans status).returned, exited_returned, scanned.returned, before]
  change ((s.scans.settle status).dispatch).returned = true at returned
  rcases settled.dispatch_cases with step | ⟨empty, awake, step⟩ | ⟨_, step⟩
  · rw [step, still] at returned
    cases returned
  · intro p alive
    change (s.scans.settle status).dispatch.Alive n p at alive
    change p ∈ (s.scans.settle status).dispatch.waitingQueue.contents
    have created := Accounted.created_of_alive alive
    have before : (s.scans.settle status).Alive n p :=
      ⟨alive.1, alive.2.1, by rw [← (settled.dispatch_kept.tcb p created).freed]; exact alive.2.2⟩
    have placed := settled.placed p
    rw [if_pos ⟨before, created⟩, queued, empty, List.count_eq_zero.mpr (awake p)] at placed
    rw [settled.dispatch_waitingQueue, ← List.count_pos_iff]
    simp only [List.count_nil] at placed
    omega
  · rw [step, still] at returned
    cases returned

end State
end NTUSP.Threads
