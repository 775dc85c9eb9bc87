import NTUSP.Threads.Slots

/-!
# As many threads as the array holds

With `THREAD_MAX` threads `thread_setup` leaves the tail of the ready queue behind its array.
If every thread is preempted at its first yield, either one of them writes there, or they
all sleep or exit and the last one runs with a ready queue that is empty and looks full.
-/

namespace NTUSP.Threads

open NTUSP.Library

namespace State

variable {s t : State} {k i p status : Nat} {pending : Option Signal}

/-- The threads `1 … k` have run, and no write went to the tail of the ready queue. -/
structure Unrun (k : Nat) (s : State) : Prop where
  tail : s.readyQueue.size = THREAD_MAX
  order : ∀ i < THREAD_MAX, s.readyQueue.arr.getD i 0 = i + 1
  nobody : s.waitingQueue.head = s.waitingQueue.size
  running : s.returned = false
  ids : ∀ p, p ≠ 0 → (s.tcbs p).id = p
  fresh : ∀ p, k < p → p ≤ THREAD_MAX →
    (s.tcbs p).routine ≠ .idle ∧ (s.tcbs p).env = .setup ∧ (s.tcbs p).keepgo = false
  sleeping : s.sleepingSet.length = THREAD_MAX + 1
  slot : ∀ i p : Nat, s.sleepingSet[i]? = some (some p) → p = i
  asleep : ∀ p, some p ∈ s.sleepingSet → 1 ≤ p ∧ p ≤ k
  gone : ∀ p, 1 ≤ p → p ≤ k → p ≠ s.currentThread →
    (s.tcbs p).freed = true ∨ some p ∈ s.sleepingSet

/-- Thread `k + 1` runs for the first time. -/
structure Turn (k : Nat) (s : State) : Prop extends s.Unrun k where
  current : s.currentThread = k + 1
  head : s.readyQueue.head = (k + 1) % THREAD_MAX

/-! ## One pass -/

/-- A turn of the sleeping scan writes at the tail, or it leaves the queue and the set alone. -/
theorem sleepScanStep_tail (s : State) (i : Nat) :
    s.readyQueue.size ∈ s.sleepScanStepSlots i ∨
      ((s.sleepScanStep i).readyQueue = s.readyQueue ∧
        (s.sleepScanStep i).sleepingSet = s.sleepingSet ∧
        ∀ p, some p ∉ s.sleepingSet → (s.sleepScanStep i).tcbs p = s.tcbs p) := by
  unfold sleepScanStepSlots sleepScanStep
  cases found : s.sleepingSet.getD i none with
  | none => exact .inr ⟨rfl, rfl, fun _ _ => rfl⟩
  | some q =>
    dsimp only
    split
    · exact .inl (List.mem_singleton.mpr rfl)
    · refine .inr ⟨rfl, rfl, fun p awake => Function.update_of_ne ?_ ..⟩
      rintro rfl
      exact awake (List.mem_of_getElem? (entry_of_getD found))

theorem sleepScan_tail (s : State) :
    s.readyQueue.size ∈ s.sleepScanSlots ∨
      (s.sleepScan.readyQueue = s.readyQueue ∧ s.sleepScan.sleepingSet = s.sleepingSet ∧
        ∀ p, some p ∉ s.sleepingSet → s.sleepScan.tcbs p = s.tcbs p) := by
  unfold sleepScanSlots sleepScan
  induction List.range THREAD_MAX generalizing s with
  | nil => exact .inr ⟨rfl, rfl, fun _ _ => rfl⟩
  | cons i rest ih =>
    rcases s.sleepScanStep_tail i with writes | ⟨queue, set, tcbs⟩
    · exact .inl (List.mem_append_left _ writes)
    · rcases ih (s.sleepScanStep i) with writes | ⟨queue', set', tcbs'⟩
      · rw [queue] at writes
        exact .inl (List.mem_append_right _ writes)
      · rw [set] at tcbs'
        refine .inr ⟨queue'.trans queue, set'.trans set, fun p awake => ?_⟩
        exact (tcbs' p awake).trans (tcbs p awake)

theorem Unrun.createIdle (unrun : s.Unrun k) :
    s.createIdle.Unrun k ∧ s.createIdle.readyQueue = s.readyQueue ∧
      s.createIdle.sleepingSet = s.sleepingSet := by
  have kept := s.createIdle_scanned
  have same : s.createIdle.readyQueue = s.readyQueue ∧
      s.createIdle.sleepingSet = s.sleepingSet ∧ ∀ p, p ≠ 0 → s.createIdle.tcbs p = s.tcbs p := by
    unfold State.createIdle
    split
    · exact ⟨rfl, rfl, fun p created => Function.update_of_ne created ..⟩
    · exact ⟨rfl, rfl, fun _ _ => rfl⟩
  obtain ⟨queue, set, tcbs⟩ := same
  refine ⟨?_, queue, set⟩
  exact
    { tail := by rw [queue]; exact unrun.tail
      order := by rw [queue]; exact unrun.order
      nobody := by rw [createIdle_waitingQueue]; exact unrun.nobody
      running := kept.returned.trans unrun.running
      ids := fun p created => by rw [tcbs p created]; exact unrun.ids p created
      fresh := fun p later few => by
        rw [tcbs p (by omega)]
        exact unrun.fresh p later few
      sleeping := by rw [set]; exact unrun.sleeping
      slot := by rw [set]; exact unrun.slot
      asleep := by rw [set]; exact unrun.asleep
      gone := fun p lower upper other => by
        rw [tcbs p (by omega), set]
        exact unrun.gone p lower upper (kept.currentThread ▸ other) }

theorem Unrun.sleepScan (unrun : s.Unrun k) :
    THREAD_MAX ∈ s.sleepScanSlots ∨
      (s.sleepScan.Unrun k ∧ s.sleepScan.readyQueue = s.readyQueue ∧
        s.sleepScan.sleepingSet = s.sleepingSet) := by
  have kept := s.sleepScan_scanned
  rcases s.sleepScan_tail with writes | ⟨queue, set, tcbs⟩
  · rw [unrun.tail] at writes
    exact .inl writes
  refine .inr ⟨?_, queue, set⟩
  exact
    { tail := by rw [queue]; exact unrun.tail
      order := by rw [queue]; exact unrun.order
      nobody := by rw [sleepScan_waitingQueue]; exact unrun.nobody
      running := kept.returned.trans unrun.running
      ids := fun p created => (kept.tcb p created).id.trans (unrun.ids p created)
      fresh := fun p later few => by
        rw [tcbs p fun member => Nat.not_le_of_lt later (unrun.asleep p member).2]
        exact unrun.fresh p later few
      sleeping := by rw [set]; exact unrun.sleeping
      slot := by rw [set]; exact unrun.slot
      asleep := by rw [set]; exact unrun.asleep
      gone := fun p lower upper other => by
        rw [(kept.tcb p (by omega)).freed, set]
        exact unrun.gone p lower upper (kept.currentThread ▸ other) }

/-- The scans write at the tail, or they wake nobody. -/
theorem Unrun.scans (unrun : s.Unrun k) (status : Nat) :
    THREAD_MAX ∈ s.schedulerSlots status ∨
      (s.scans.Unrun k ∧ s.scans.readyQueue = s.readyQueue ∧
        s.scans.sleepingSet = s.sleepingSet ∧ s.scans.currentThread = s.currentThread) := by
  obtain ⟨idle, queue, set⟩ := unrun.createIdle
  rcases idle.sleepScan with writes | ⟨scanned, queue', set'⟩
  · exact .inl (List.mem_append_left _ (List.mem_append_left _ writes))
  · have kept := s.createIdle_scanned.trans s.createIdle.sleepScan_scanned
    unfold State.scans
    rw [waitScan_of_nobody scanned.nobody]
    exact .inr ⟨scanned, queue'.trans queue, set'.trans set, kept.currentThread⟩

/-- The next thread of the order is dispatched: it is not asleep. -/
theorem Unrun.dispatch (unrun : s.Unrun k) (few : k < THREAD_MAX)
    (head : s.readyQueue.head = k)
    (left : s.currentThread ≠ 0 →
      (s.tcbs s.currentThread).freed = true ∨ some s.currentThread ∈ s.sleepingSet) :
    s.dispatch.Turn k := by
  have nonempty : s.readyQueue.head ≠ s.readyQueue.size := by
    rw [head, unrun.tail]
    omega
  have first : s.readyQueue.arr.getD s.readyQueue.head 0 = k + 1 := by
    rw [head]
    exact unrun.order k few
  have kept : s.dropSleeping THREAD_MAX = s := by
    change s.dropSleeping (99 + 1) = s
    unfold dropSleeping
    dsimp only
    rw [if_neg nonempty, first, if_neg]
    rw [Bool.not_eq_true]
    refine anySleeper_eq_false fun p member => ?_
    obtain ⟨lower, upper⟩ := unrun.asleep p member
    rw [unrun.ids p (by omega), unrun.ids (k + 1) (by omega), decide_eq_false_iff_not]
    omega
  unfold State.dispatch
  rw [if_neg nonempty, kept]
  dsimp only
  rw [if_neg nonempty, first]
  exact
    { tail := unrun.tail
      order := unrun.order
      nobody := unrun.nobody
      running := unrun.running
      ids := unrun.ids
      fresh := unrun.fresh
      sleeping := unrun.sleeping
      slot := unrun.slot
      asleep := unrun.asleep
      gone := fun p lower upper _ => by
        by_cases same : p = s.currentThread
        · rw [same]
          exact left (by omega)
        · exact unrun.gone p lower upper same
      current := rfl
      head := by
        change (s.readyQueue.head + 1) % THREAD_MAX = _
        rw [head] }

/-- Freeing a thread keeps the order. -/
theorem Unrun.freed (unrun : s.Unrun k) :
    (s.setCurrent { s.current with freed := true }).Unrun k := by
  have tcbs : ∀ p, p ≠ s.currentThread →
      (s.setCurrent { s.current with freed := true }).tcbs p = s.tcbs p := fun p other =>
    Function.update_of_ne other ..
  have own : (s.setCurrent { s.current with freed := true }).tcbs s.currentThread =
      { s.current with freed := true } := Function.update_self ..
  refine
    { unrun with
      ids := fun p created => ?_
      fresh := fun p later few => ?_
      gone := fun p lower upper other => ?_ }
  · by_cases same : p = s.currentThread
    · rw [same] at created ⊢
      rw [own]
      exact unrun.ids _ created
    · rw [tcbs p same]
      exact unrun.ids p created
  · by_cases same : p = s.currentThread
    · rw [same] at later few ⊢
      rw [own]
      exact unrun.fresh _ later few
    · rw [tcbs p same]
      exact unrun.fresh p later few
  · rw [tcbs p other]
    exact unrun.gone p lower upper other

/-- How a thread that runs for the first time enters the scheduler. -/
def Hands (s : State) (status : Nat) : Prop :=
  (status = 1 ∧ s.currentThread ≠ 0) ∨ status = 3 ∨
    (status ≠ 1 ∧ (s.currentThread ≠ 0 → some s.currentThread ∈ s.sleepingSet))

theorem Unrun.settle (unrun : s.Unrun k) (few : k < THREAD_MAX) (head : s.readyQueue.head = k)
    (hands : s.Hands status) :
    THREAD_MAX ∈ s.settleSlots status ∨ (s.settle status).dispatch.Turn k := by
  unfold settleSlots State.settle
  by_cases signalled : status = 1
  · have created : s.currentThread ≠ 0 := by
      rcases hands with ⟨_, created⟩ | exits | ⟨other, _⟩
      · exact created
      · omega
      · exact absurd signalled other
    have id : s.current.id ≠ 0 := by
      rw [current, unrun.ids _ created]
      exact created
    rw [if_pos ⟨signalled, id⟩, unrun.tail]
    exact .inl (List.mem_singleton.mpr rfl)
  rw [if_neg signalled]
  by_cases exits : status = 3
  · rw [if_pos exits]
    refine .inr (unrun.freed.dispatch few head fun _ => .inl ?_)
    simp [setCurrent, setTcb]
  · rw [if_neg exits]
    refine .inr (unrun.dispatch few head fun created => .inr ?_)
    exact ((hands.resolve_left fun signal => signalled signal.1).resolve_left exits).2 created

/-- A thread that is preempted, exits or sleeps hands over to the next one, unless something is
written at the tail. -/
theorem Unrun.scheduler (unrun : s.Unrun k) (few : k < THREAD_MAX) (head : s.readyQueue.head = k)
    (hands : s.Hands status) :
    THREAD_MAX ∈ s.schedulerSlots status ∨ (s.scheduler status).Turn k := by
  rcases unrun.scans status with writes | ⟨scanned, queue, set, current⟩
  · exact .inl writes
  have later : s.scans.Hands status := by
    unfold Hands
    rw [current, set]
    exact hands
  rcases scanned.settle few (by rw [queue]; exact head) later with writes | turn
  · exact .inl (List.mem_append_right _ writes)
  · exact .inr turn

/-! ## One step -/

/-- What a thread does when it runs for the first time. -/
theorem Turn.body (turn : s.Turn k) (few : k < THREAD_MAX) :
    ∃ v jump, s.body = some (v, jump) ∧ s.Computed v ∧
      (jump = .yield 0 ∨ jump = .exit ∨ ∃ seconds, jump = .sleep seconds) := by
  obtain ⟨busy, env, keepgo⟩ := turn.fresh (k + 1) (by omega) (by omega)
  rw [← turn.current] at busy env keepgo
  have jumps : ∀ t : State, t.turnJump = .yield 0 ∨ t.turnJump = .exit ∨
      ∃ seconds, t.turnJump = .sleep seconds := by
    intro t
    unfold turnJump
    split
    · exact .inr (.inl rfl)
    · exact .inl rfl
  unfold State.body
  rw [if_neg (by rw [turn.running]; exact Bool.false_ne_true)]
  cases routine : s.current.routine with
  | idle => exact absurd routine busy
  | fibonacci =>
    exact ⟨_, _, rfl, s.loopHead_computed.trans s.loopHead.fibonacciRound_computed, jumps _⟩
  | pm => exact ⟨_, _, rfl, s.loopHead_computed.trans s.loopHead.pmRound_computed, jumps _⟩
  | enroll =>
    have resume : s.current.env = .setup := env
    have first : s.current.keepgo = false := keepgo
    dsimp only
    unfold enrollJump
    rw [resume]
    dsimp only
    rw [if_pos first]
    exact ⟨_, _, rfl, s.computed_line _, .inr (.inr ⟨_, rfl⟩)⟩

/-- The thread has run, and of the tables only its tcb changed. -/
theorem Turn.ran (turn : s.Turn k) (tcb : Tcb) (id : tcb.id = k + 1) (out : List Print) :
    { s.setCurrent tcb with out := out }.Unrun (k + 1) := by
  have tcbs : ∀ p, p ≠ k + 1 → (s.setCurrent tcb).tcbs p = s.tcbs p := fun p other =>
    Function.update_of_ne (turn.current ▸ other) ..
  have own : (s.setCurrent tcb).tcbs (k + 1) = tcb := by
    rw [← turn.current]
    exact Function.update_self ..
  refine
    { tail := turn.tail
      order := turn.order
      nobody := turn.nobody
      running := turn.running
      ids := fun p created => ?_
      fresh := fun p later few => ?_
      sleeping := turn.sleeping
      slot := turn.slot
      asleep := fun p member => (turn.asleep p member).imp_right Nat.le_succ_of_le
      gone := fun p lower upper other => ?_ }
  · by_cases same : p = k + 1
    · rw [same]
      exact (congrArg Tcb.id own).trans id
    · exact (congrArg Tcb.id (tcbs p same)).trans (turn.ids p created)
  · rw [tcbs p (by omega)]
    exact turn.fresh p (by omega) few
  · have earlier : p ≠ s.currentThread := other
    rw [turn.current] at earlier
    rw [tcbs p earlier]
    exact turn.gone p lower (by omega) other

/-- The last thread that ran goes to sleep. -/
theorem Unrun.sleep (unrun : s.Unrun k) (lower : 1 ≤ k) (upper : k ≤ THREAD_MAX) :
    { s with sleepingSet := s.sleepingSet.set k (some k) }.Unrun k := by
  have inside : k < s.sleepingSet.length := by
    rw [unrun.sleeping]
    omega
  refine
    { unrun with
      sleeping := List.length_set.trans unrun.sleeping
      slot := fun i p found => ?_
      asleep := fun p member => ?_
      gone := fun p positive few other => (unrun.gone p positive few other).imp_right ?_ }
  · change (s.sleepingSet.set k (some k))[i]? = some (some p) at found
    by_cases same : i = k
    · rw [same, List.getElem?_set_self inside] at found
      rw [same]
      exact (Option.some.inj (Option.some.inj found)).symm
    · rw [List.getElem?_set_ne (Ne.symm same)] at found
      exact unrun.slot i p found
  · rcases List.mem_or_eq_of_mem_set member with old | own
    · exact unrun.asleep p old
    · rw [Option.some.inj own]
      exact ⟨lower, Nat.le_refl k⟩
  · intro member
    by_cases same : p = k
    · rw [same]
      exact List.mem_of_getElem? (List.getElem?_set_self inside)
    · obtain ⟨i, found⟩ := List.getElem?_of_mem member
      have index := unrun.slot i p found
      exact List.mem_of_getElem? ((List.getElem?_set_ne (by omega)).trans found)

/-- A thread that runs for the first time and is preempted enters the scheduler. -/
theorem Turn.entry (turn : s.Turn k) (few : k + 1 < THREAD_MAX) :
    ∃ v jump pass, s.body = some (v, jump) ∧ v.jumpEntry (some .SIGTSTP) jump = some pass ∧
      pass.1.Unrun (k + 1) ∧ pass.1.readyQueue.head = k + 1 ∧ pass.1.Hands pass.2 := by
  obtain ⟨v, jump, ran, ⟨tcb, out, kept, same⟩, kinds⟩ := turn.body (by omega)
  have head : s.readyQueue.head = k + 1 := turn.head.trans (Nat.mod_eq_of_lt few)
  have id : tcb.id = k + 1 := by
    rw [kept.id, State.current, turn.current]
    exact turn.ids _ (by omega)
  subst same
  rcases kinds with yields | exits | ⟨seconds, sleeps⟩
  · have entered := turn.ran { tcb with env := .yield 0 } id (out ++ [.caught .SIGTSTP])
    refine ⟨_, jump, _, ran, by rw [yields]; rfl, ?_, head, .inl ⟨rfl, ?_⟩⟩
    · simpa [State.current, setCurrent, setTcb, print] using entered
    · exact fun zero => absurd (turn.current.symm.trans zero) (by omega)
  · have entered := turn.ran tcb id (out ++ [.exit tcb.id])
    refine ⟨_, jump, _, ran, by rw [exits]; rfl, ?_, head, .inr (.inl rfl)⟩
    simpa [State.current, setCurrent, setTcb, print] using entered
  · have entered := (turn.ran { tcb with sleepingTime := seconds } id out).sleep (by omega)
      (Nat.le_of_lt few)
    have put : some (k + 1) ∈ s.sleepingSet.set (k + 1) (some (k + 1)) :=
      List.mem_of_getElem? (List.getElem?_set_self (by rw [turn.sleeping]; omega))
    refine ⟨_, jump, _, ran, by rw [sleeps]; rfl, ?_, head, .inr (.inr ⟨?_, fun _ => ?_⟩)⟩
    · simpa [State.asleep, State.current, setCurrent, setTcb, print, id, turn.current] using entered
    · change 2 ≠ 1
      decide
    · simpa [State.asleep, State.current, setCurrent, setTcb, id, turn.current] using put

/-- The thread's first step writes at the tail or hands over to the next thread. -/
theorem Turn.step (turn : s.Turn k) (few : k + 1 < THREAD_MAX) :
    ∃ t, s.step (some .SIGTSTP) = some t ∧
      (THREAD_MAX ∈ s.stepSlots (some .SIGTSTP) ∨ t.Turn (k + 1)) := by
  obtain ⟨v, jump, pass, ran, enters, unrun, head, hands⟩ := turn.entry few
  refine ⟨pass.1.scheduler pass.2, ?_, ?_⟩
  · rw [step_eq_body, ran, Option.map_some, jump_of_entry enters]
  · refine (unrun.scheduler few head hands).imp_left fun writes => ?_
    unfold stepSlots
    rw [ran]
    dsimp only
    rw [enters]
    exact List.mem_append_right _ writes

/-! ## The start -/

/-- `spawn_thread` behind `j` threads. -/
structure Filled (j : Nat) (s : State) : Prop where
  head : s.readyQueue.head = 0
  tail : s.readyQueue.size = j
  size : s.readyQueue.arr.length = THREAD_MAX
  order : ∀ i < j, s.readyQueue.arr.getD i 0 = i + 1
  waiting : s.waitingQueue = .empty
  sleepingSet : s.sleepingSet = List.replicate (THREAD_MAX + 1) none
  idle : s.currentThread = 0
  running : s.returned = false
  ids : ∀ p, (s.tcbs p).id = p
  fresh : ∀ p, 1 ≤ p → p ≤ j →
    (s.tcbs p).routine ≠ .idle ∧ (s.tcbs p).env = .setup ∧ (s.tcbs p).keepgo = false

theorem blank_filled (timeSlice qP qS : Int) : (blank timeSlice qP qS).Filled 0 where
  head := rfl
  tail := rfl
  size := List.length_replicate
  order i less := absurd less (Nat.not_lt_zero i)
  waiting := rfl
  sleepingSet := rfl
  idle := rfl
  running := rfl
  ids p := rfl
  fresh p lower upper := by omega

theorem Filled.threadSetup {j : Nat} (filled : s.Filled j) (few : j < THREAD_MAX) (spec : Spec) :
    (s.threadSetup spec.routine (j + 1) spec.args).Filled (j + 1) := by
  have own := s.threadSetup_own spec.routine (j + 1) spec.args
  have other := fun p => s.threadSetup_other spec.routine (j + 1) spec.args (p := p)
  refine
    { head := filled.head
      tail := congrArg (· + 1) filled.tail
      size := ?_
      order := fun i less => ?_
      waiting := filled.waiting
      sleepingSet := filled.sleepingSet
      idle := filled.idle
      running := filled.running
      ids := fun p => ?_
      fresh := fun p lower upper => ?_ }
  · exact List.length_set.trans filled.size
  · change (s.readyQueue.arr.set s.readyQueue.size (j + 1)).getD i 0 = i + 1
    rw [filled.tail, List.getD_eq_getElem?_getD]
    by_cases same : i = j
    · rw [same, List.getElem?_set_self (by rw [filled.size]; exact few)]
      rfl
    · rw [List.getElem?_set_ne (Ne.symm same), ← List.getD_eq_getElem?_getD]
      exact filled.order i (by omega)
  · by_cases same : p = j + 1
    · rw [same, own]
    · rw [other p same]
      exact filled.ids p
  · by_cases same : p = j + 1
    · rw [same, own]
      refine ⟨?_, rfl, rfl⟩
      cases spec <;> simp [Spec.routine]
    · rw [other p same]
      exact filled.fresh p lower (by omega)

theorem Filled.spawnThread {j : Nat} (rest : List Spec) (filled : s.Filled j)
    (few : j + rest.length ≤ THREAD_MAX) :
    (Threads.spawnThread s (j + 1) rest).Filled (j + rest.length) := by
  induction rest generalizing s j with
  | nil => exact filled
  | cons spec rest ih =>
    rw [List.length_cons] at few ⊢
    have next := ih (filled.threadSetup (by omega) spec) (by omega)
    rwa [show j + (rest.length + 1) = j + 1 + rest.length by omega]

/-- The state in which the scheduler is entered for the first time. -/
theorem filled (timeSlice qP qS : Int) {specs : List Spec} (few : specs.length ≤ THREAD_MAX) :
    (Threads.spawnThread (blank timeSlice qP qS) 1 specs).Filled specs.length := by
  have all := (blank_filled timeSlice qP qS).spawnThread specs (by omega)
  rwa [Nat.zero_add] at all

theorem Filled.unrun (filled : s.Filled THREAD_MAX) : s.Unrun 0 := by
  have awake : ∀ p, some p ∉ s.sleepingSet := by
    intro p member
    rw [filled.sleepingSet] at member
    cases (List.eq_of_mem_replicate member)
  exact
    { tail := filled.tail
      order := filled.order
      nobody := by rw [filled.waiting]; rfl
      running := filled.running
      ids := fun p _ => filled.ids p
      fresh := fun p later few => filled.fresh p later few
      sleeping := by rw [filled.sleepingSet, List.length_replicate]
      slot := fun i p found => absurd (List.mem_of_getElem? found) (awake p)
      asleep := fun p member => absurd member (awake p)
      gone := fun p lower upper => by omega }

/-- The last thread runs while nobody is ready, and the empty ready queue looks full. -/
theorem Turn.looks_full (turn : s.Turn 99) :
    s.readyQueue.head ≠ s.readyQueue.size ∧
      ∀ p, s.Alive THREAD_MAX p → p = s.currentThread ∨ some p ∈ s.sleepingSet := by
  constructor
  · rw [turn.head, turn.tail]
    decide
  · intro p ⟨lower, upper, living⟩
    by_cases runs : p = s.currentThread
    · exact .inl runs
    · have last := turn.current
      have few : p ≤ 100 := upper
      rcases turn.gone p lower (by omega) runs with exited | asleep
      · exact absurd (exited.symm.trans living) (by decide)
      · exact .inr asleep

end State

open State

variable {timeSlice qP qS : Int} {specs : List Spec} {s : State} {k : Nat}

/-- The first pass writes at the tail or dispatches the first thread. -/
theorem start_turn (timeSlice qP qS : Int) (full : specs.length = THREAD_MAX) :
    THREAD_MAX ∈ (spawnThread (blank timeSlice qP qS) 1 specs).schedulerSlots 0 ∨
      (start timeSlice qP qS specs).Turn 0 := by
  have filled := filled timeSlice qP qS (Nat.le_of_eq full)
  rw [full] at filled
  exact filled.unrun.scheduler (by decide) filled.head
    (.inr (.inr ⟨by decide, fun created => absurd filled.idle created⟩))

/-- A run in which every thread is preempted at its first yield writes at the tail or comes to
the next thread. -/
theorem reach_turn (first : (start timeSlice qP qS specs).Turn 0) (few : k < THREAD_MAX) :
    ∃ s, (machine timeSlice qP qS specs).Reach Machine.anyStep s ∧
      (THREAD_MAX ∈ s.stepSlots (some .SIGTSTP) ∨ s.Turn k) := by
  induction k with
  | zero => exact ⟨_, .initial rfl, .inr first⟩
  | succ k ih =>
    obtain ⟨s, reached, writes | turn⟩ := ih (by omega)
    · exact ⟨s, reached, .inl writes⟩
    · obtain ⟨t, steps, writes | next⟩ := turn.step few
      · exact ⟨s, reached, .inl writes⟩
      · exact ⟨t, .step reached trivial steps, .inr next⟩

end NTUSP.Threads
