import NTUSP.Library.Monitor
import NTUSP.Threads.Capacity

/-!
# The moments of a step

`thread_sleep`, `thread_awake` and the parts of a pass are all that writes the sleeping set and
the ready queue. `moments` lists those a step comes to, each with the state right behind it.
`Spares` says what such a part leaves alone of one thread.
-/

namespace NTUSP.Threads

open NTUSP.Library

/-- What a moment lies behind: `thread_sleep` of thread `p`, `thread_awake` by thread `q`, the
loop over the sleeping set with which an entry of the scheduler begins, the loop over the
waiting queue, lines 84 to 104, the choice of thread `q`, or a yield that does not enter. -/
inductive Event where
  | sleep (p : Nat)
  | awake (q : Nat) (id : Int)
  | entry
  | waitScan
  | settle
  | dispatch (q : Nat)
  | proceed
  deriving DecidableEq

namespace State

/-- The moment behind `thread_awake`, which only `enroll` calls. -/
def awakeMoments (s : State) : List (Event × State) :=
  if s.current.routine = .enroll ∧ s.current.env = .setup ∧ s.current.keepgo = true then
    match s.threadAwake (s.current.args.getD 3 0) with
    | none => []
    | some woken => [(.awake s.currentThread (s.current.args.getD 3 0), woken)]
  else []

/-- The moment behind `thread_sleep`, before it enters the scheduler. -/
def sleepMoments (s : State) : Jump → List (Event × State)
  | .sleep seconds => [(.sleep s.currentThread, s.asleep seconds)]
  | _ => []

def passMoments (s : State) (status : Nat) : List (Event × State) :=
  [(.entry, s.createIdle.sleepScan), (.waitScan, s.scans), (.settle, s.scans.settle status),
    (.dispatch (s.scheduler status).currentThread, s.scheduler status)]

/-- The moments behind a jump; the last one has the state the step leads to. -/
def jumpMoments (s : State) (pending : Option Signal) (jump : Jump) : List (Event × State) :=
  match s.jumpEntry pending jump with
  | none => [(.proceed, s.jump pending jump)]
  | some pass => pass.1.passMoments pass.2

def moments (s : State) (pending : Option Signal) : List (Event × State) :=
  match s.body with
  | none => []
  | some ends => s.awakeMoments ++ ends.1.sleepMoments ends.2 ++ ends.1.jumpMoments pending ends.2

/-- What the running thread keeps of itself, and every part of a step of any thread. -/
structure Carries (p : Nat) (s t : State) : Prop where
  routine : (t.tcbs p).routine = (s.tcbs p).routine
  args : (t.tcbs p).args = (s.tcbs p).args
  keepgo : (t.tcbs p).keepgo = (s.tcbs p).keepgo
  slot : t.sleepingSet[p]? = s.sleepingSet[p]?
  timeSlice : t.timeSlice = s.timeSlice

/-- What every part of a step keeps of a thread that does not run in it. -/
structure Rests (p : Nat) (s t : State) : Prop extends Carries p s t where
  env : (t.tcbs p).env = (s.tcbs p).env
  sleepingTime : (t.tcbs p).sleepingTime = (s.tcbs p).sleepingTime

/-- What a part of a step that is not about a thread leaves alone of it. -/
structure Spares (p : Nat) (s t : State) : Prop extends Rests p s t where
  ready : p ∈ s.readyQueue.contents → p ∈ t.readyQueue.contents

variable {n hand hand' p q i status : Nat} {s t u : State} {pending : Option Signal}

theorem Rests.of_tcb (tcb : t.tcbs p = s.tcbs p) (slot : t.sleepingSet[p]? = s.sleepingSet[p]?)
    (timeSlice : t.timeSlice = s.timeSlice) : Rests p s t where
  routine := by rw [tcb]
  args := by rw [tcb]
  keepgo := by rw [tcb]
  slot := slot
  timeSlice := timeSlice
  env := by rw [tcb]
  sleepingTime := by rw [tcb]

theorem Spares.of_tcb (tcb : t.tcbs p = s.tcbs p)
    (slot : t.sleepingSet[p]? = s.sleepingSet[p]?) (timeSlice : t.timeSlice = s.timeSlice)
    (ready : p ∈ s.readyQueue.contents → p ∈ t.readyQueue.contents) : Spares p s t :=
  { Rests.of_tcb tcb slot timeSlice with ready := ready }

theorem Spares.refl (p : Nat) (s : State) : Spares p s s := .of_tcb rfl rfl rfl id

theorem Carries.trans (first : Carries p s t) (second : Carries p t u) : Carries p s u where
  routine := second.routine.trans first.routine
  args := second.args.trans first.args
  keepgo := second.keepgo.trans first.keepgo
  slot := second.slot.trans first.slot
  timeSlice := second.timeSlice.trans first.timeSlice

theorem Spares.trans (first : Spares p s t) (second : Spares p t u) : Spares p s u where
  toCarries := first.toCarries.trans second.toCarries
  env := second.env.trans first.env
  sleepingTime := second.sleepingTime.trans first.sleepingTime
  ready member := second.ready (first.ready member)

/-! ## Where a thread is -/

/-- A sleeper is in the entry of its id. -/
theorem Shape.mem_sleepingSet (shape : s.Shape) :
    some p ∈ s.sleepingSet ↔ s.sleepingSet[p]? = some (some p) := by
  constructor
  · intro member
    obtain ⟨i, entry⟩ := List.getElem?_of_mem member
    have own := shape.slot i p entry
    rwa [← own] at entry
  · exact List.mem_of_getElem?

/-- A ready thread that no part of a pass took stays ready. -/
theorem Accounted.stays_ready (acc : s.Accounted n hand) (later : t.Accounted n hand')
    (freed : (t.tcbs p).freed = (s.tcbs p).freed) (other : p ≠ hand')
    (slot : t.sleepingSet[p]? = s.sleepingSet[p]?)
    (waiting : p ∈ t.waitingQueue.contents → p ∈ s.waitingQueue.contents)
    (member : p ∈ s.readyQueue.contents) : p ∈ t.readyQueue.contents := by
  obtain ⟨alive, _, awake, free⟩ := acc.ready_iff.mp member
  refine later.ready_iff.mpr ⟨⟨alive.1, alive.2.1, freed.trans alive.2.2⟩, other, ?_, ?_⟩
  · rwa [later.mem_sleepingSet, slot, ← acc.mem_sleepingSet]
  · exact fun waits => free (waiting waits)

/-- A thread that sleeps or is ready is not the one in hand. -/
theorem Accounted.ne_hand_of_slot (acc : s.Accounted n hand)
    (slot : s.sleepingSet[p]? = some (some p)) : p ≠ hand :=
  (acc.alive_of_sleeping (acc.mem_sleepingSet.mpr slot)).2

theorem Accounted.awaken_spares (acc : s.Accounted n hand)
    (asleep : s.sleepingSet[i]? = some (some q)) (other : q ≠ p) (tcb : Tcb) :
    Spares p s (s.awaken i q tcb) := by
  have entry := acc.slot i q asleep
  refine .of_tcb ?_ ?_ rfl fun member => ?_
  · exact Function.update_of_ne (Ne.symm other) ..
  · exact List.getElem?_set_ne (entry ▸ other)
  · rw [acc.awaken_contents asleep]
    exact List.mem_append_left _ member

/-! ## Waking another thread -/

theorem Accounted.threadAwake_spares (acc : s.Accounted n hand) {id : Int}
    (woken : s.threadAwake id = some t) (other : id = p → s.sleepingSet[p]? = some none) :
    Spares p s t := by
  unfold State.threadAwake at woken
  split at woken
  · rename_i bounds
    split at woken
    · rw [← Option.some.inj woken]
      exact .refl p s
    · rename_i q found
      have asleep := entry_of_getD found
      rw [← Option.some.inj woken]
      refine acc.awaken_spares asleep ?_ _
      rintro rfl
      have entry := acc.slot _ _ asleep
      have vacant := other (by omega)
      rw [← entry, vacant] at asleep
      cases asleep
  · cases woken

/-- `thread_awake` of a sleeper. -/
theorem threadAwake_asleep (asleep : s.sleepingSet[p]? = some (some p))
    (woken : s.threadAwake p = some t) :
    t = s.awaken p p { s.tcbs p with keepgo := true } := by
  unfold State.threadAwake at woken
  split at woken
  · rw [Int.toNat_natCast, List.getD_eq_getElem?_getD, asleep] at woken
    exact (Option.some.inj woken).symm
  · cases woken

/-! ## The sleeping scan -/

theorem createIdle_spares (s : State) (created : p ≠ 0) : Spares p s s.createIdle := by
  unfold createIdle
  split
  · exact .of_tcb (Function.update_of_ne created ..) rfl rfl id
  · exact .refl p s

theorem Accounted.sleepScanStep_spares (acc : s.Accounted n hand) (other : i ≠ p) :
    Spares p s (s.sleepScanStep i) := by
  rcases s.sleepScanStep_cases i with skipped | ⟨q, time, asleep, counted | woken⟩
  · rw [skipped]
    exact .refl p s
  · rw [counted]
    have entry := acc.slot i q asleep
    exact .of_tcb (Function.update_of_ne (by omega) ..) rfl rfl id
  · rw [woken]
    have entry := acc.slot i q asleep
    exact acc.awaken_spares asleep (by omega) _

theorem Accounted.sleepTurns (acc : s.Accounted n hand) (turns : List Nat) :
    (turns.foldl State.sleepScanStep s).Accounted n hand := by
  induction turns generalizing s with
  | nil => exact acc
  | cons i rest ih => exact ih (acc.sleepScanStep i)

theorem Accounted.sleepTurns_spares (acc : s.Accounted n hand) {turns : List Nat}
    (absent : p ∉ turns) : Spares p s (turns.foldl State.sleepScanStep s) := by
  induction turns generalizing s with
  | nil => exact .refl p s
  | cons i rest ih =>
    rw [List.mem_cons, not_or] at absent
    exact (acc.sleepScanStep_spares (Ne.symm absent.1)).trans (ih (acc.sleepScanStep i) absent.2)

/-- The scan is the turn of one thread between turns of others. -/
theorem sleepScan_split (inside : p < THREAD_MAX) : ∃ before after : List Nat,
    p ∉ before ∧ p ∉ after ∧ ∀ s : State, s.sleepScan =
      after.foldl sleepScanStep ((before.foldl sleepScanStep s).sleepScanStep p) := by
  obtain ⟨before, after, split⟩ := List.append_of_mem (List.mem_range.mpr inside)
  have distinct := List.nodup_range (n := THREAD_MAX)
  rw [split, List.nodup_middle, List.nodup_cons, List.mem_append, not_or] at distinct
  refine ⟨before, after, distinct.1.1, distinct.1.2, fun s => ?_⟩
  unfold sleepScan
  rw [split, List.foldl_append, List.foldl_cons]

theorem sleepScanStep_vacant (vacant : s.sleepingSet[p]? = some none) : s.sleepScanStep p = s := by
  unfold sleepScanStep
  rw [List.getD_eq_getElem?_getD, vacant]
  rfl

/-- The scan spares whoever does not sleep. -/
theorem Accounted.sleepScan_spares (acc : s.Accounted n hand) (inside : p < THREAD_MAX)
    (vacant : s.sleepingSet[p]? = some none) : Spares p s s.sleepScan := by
  obtain ⟨before, after, earlier, later, scan⟩ := sleepScan_split inside
  have first := acc.sleepTurns_spares earlier
  rw [scan s, sleepScanStep_vacant (first.slot.trans vacant)]
  exact first.trans ((acc.sleepTurns before).sleepTurns_spares later)

/-! ## The rest of a pass -/

theorem waitScanFrom_tables (s : State) (i count : Nat) :
    (s.waitScanFrom i count).tcbs = s.tcbs ∧
      (s.waitScanFrom i count).sleepingSet = s.sleepingSet ∧
      (s.waitScanFrom i count).timeSlice = s.timeSlice := by
  induction count generalizing s i with
  | zero => exact ⟨rfl, rfl, rfl⟩
  | succ count ih =>
    obtain ⟨tcbs, set, slice⟩ := ih (s.waitScanStep i) (i + 1)
    unfold waitScanFrom
    rw [tcbs, set, slice]
    unfold waitScanStep
    dsimp only
    split <;> exact ⟨rfl, rfl, rfl⟩

theorem Entered.waitScan_spares (entered : s.Entered n hand) : Spares p s s.waitScan := by
  obtain ⟨tcbs, set, slice⟩ := s.waitScanFrom_tables s.waitingQueue.head
    (s.waitingQueue.size - s.waitingQueue.head)
  obtain ⟨acc, _, waiting⟩ := entered.waitScan
  refine .of_tcb (congrFun tcbs p) (congrArg (·[p]?) set) slice fun member => ?_
  refine entered.toAccounted.stays_ready acc (congrArg Tcb.freed (congrFun tcbs p))
    (entered.alive_of_ready member).2 (congrArg (·[p]?) set) (fun waits => ?_) member
  rcases waiting with ⟨same, _⟩ | ⟨_, _, empty⟩
  · rwa [same] at waits
  · rw [empty] at waits
    cases waits

theorem settle_tcb (s : State) (status : Nat) : (s.settle status).tcbs p =
    if status = 3 ∧ p = s.currentThread then { s.tcbs p with freed := true } else s.tcbs p := by
  unfold settle
  by_cases signalled : status = 1
  · have stays : ¬ (status = 3 ∧ p = s.currentThread) := fun both => by omega
    rw [if_pos signalled, if_neg stays]
    split <;> rfl
  · rw [if_neg signalled]
    by_cases exits : status = 3
    · rw [if_pos exits]
      by_cases own : p = s.currentThread
      · rw [if_pos ⟨exits, own⟩]
        subst own
        exact Function.update_self ..
      · rw [if_neg fun both => own both.2]
        exact Function.update_of_ne own ..
    · rw [if_neg exits, if_neg fun both => exits both.1]

theorem settle_kept (s : State) (status : Nat) :
    ∃ freed, (s.settle status).tcbs p = { s.tcbs p with freed := freed } := by
  rw [settle_tcb]
  split
  · exact ⟨true, rfl⟩
  · exact ⟨(s.tcbs p).freed, rfl⟩

theorem settle_same (s : State) (status : Nat) :
    (s.settle status).sleepingSet = s.sleepingSet ∧
      (s.settle status).timeSlice = s.timeSlice := by
  unfold settle
  split
  · split <;> exact ⟨rfl, rfl⟩
  · split <;> exact ⟨rfl, rfl⟩

/-- Putting the entering thread away spares every thread: only `freed` of an exiting one
changes. -/
theorem Enters.settle_spares (enters : Enters n s status) :
    Spares p s.scans (s.scans.settle status) := by
  obtain ⟨entered, running⟩ := enters
  obtain ⟨acc, scanned, _⟩ := entered.scans
  obtain ⟨set, slice⟩ := s.scans.settle_same status
  have tcb := s.scans.settle_tcb status (p := p)
  have ready : p ∈ s.scans.readyQueue.contents →
      p ∈ (s.scans.settle status).readyQueue.contents := by
    intro member
    obtain ⟨alive, other⟩ := acc.alive_of_ready member
    refine acc.stays_ready (entered.settle running) ?_ (Accounted.created_of_alive alive)
      (congrArg (·[p]?) set) (fun waits => ?_) member
    · -- The one who exits is in hand, and not ready.
      rw [tcb, if_neg]
      rintro ⟨exits, own⟩
      refine other (own.trans ?_)
      rw [scanned.currentThread]
      exact (if_pos (.inr exits)).symm
    · rwa [settle_waitingQueue] at waits
  obtain ⟨freed, same⟩ := s.scans.settle_kept status (p := p)
  exact
    { routine := by rw [same]
      args := by rw [same]
      keepgo := by rw [same]
      slot := congrArg (·[p]?) set
      timeSlice := slice
      env := by rw [same]
      sleepingTime := by rw [same]
      ready := ready }

theorem Accounted.dispatch_rests (acc : s.Accounted n 0) (created : p ≠ 0) :
    Rests p s s.dispatch := by
  rcases acc.dispatch_cases with step | ⟨_, _, step⟩ | ⟨_, step⟩ <;> rw [step]
  · exact .of_tcb rfl rfl rfl
  · exact .of_tcb (Function.update_of_ne created ..) rfl rfl
  · exact .of_tcb rfl rfl rfl

/-- The choice spares whoever is not chosen. -/
theorem Accounted.dispatch_spares (acc : s.Accounted n 0) (created : p ≠ 0)
    (other : s.dispatch.currentThread ≠ p) : Spares p s s.dispatch := by
  have rests := acc.dispatch_rests created
  refine { rests with ready := fun member => ?_ }
  refine acc.stays_ready acc.dispatch.1 (acc.dispatch_kept.tcb p created).freed (Ne.symm other)
    rests.slot (fun waits => ?_) member
  rwa [acc.dispatch_waitingQueue] at waits

/-! ## Up to the jump and over it -/

/-- The same for whoever sleeps or is ready. -/
structure Alike (s t : State) : Prop where
  currentThread : t.currentThread = s.currentThread
  readyQueue : t.readyQueue = s.readyQueue
  sleepingSet : t.sleepingSet = s.sleepingSet
  timeSlice : t.timeSlice = s.timeSlice

theorem Alike.spares (alike : s.Alike t) (tcb : t.tcbs p = s.tcbs p) : Spares p s t :=
  .of_tcb tcb (by rw [alike.sleepingSet]) alike.timeSlice fun member => alike.readyQueue ▸ member

/-- The ways from a resume point to the jump, told apart by what they do to sleepers. -/
inductive Stirs (s : State) : State → Jump → Prop where
  | sleep (enroll : s.current.routine = .enroll) (env : s.current.env = .setup)
      (first : s.current.keepgo = false) :
      Stirs s (s.print (.sleep s.current.id (s.current.args.getD 2 0)))
        (.sleep (s.current.args.getD 2 0 + s.timeSlice))
  | awake {woken t : State} {jump : Jump} (enroll : s.current.routine = .enroll)
      (env : s.current.env = .setup) (awake : s.current.keepgo = true)
      (found : s.threadAwake (s.current.args.getD 3 0) = some woken) (alike : woken.Alike t)
      (tcbs : t.tcbs = woken.tcbs) (stays : ∀ seconds, jump ≠ .sleep seconds) : Stirs s t jump
  | other {t : State} {jump : Jump}
      (elsewhere : ¬ (s.current.routine = .enroll ∧ s.current.env = .setup)) (alike : s.Alike t)
      (tcbs : ∀ p, p ≠ s.currentThread ∨ s.current.routine = .enroll → t.tcbs p = s.tcbs p)
      (stays : ∀ seconds, jump ≠ .sleep seconds) : Stirs s t jump

theorem Computed.stirs {jump : Jump} (computed : s.Computed t)
    (sequential : s.current.routine ≠ .enroll) (stays : ∀ seconds, jump ≠ .sleep seconds) :
    s.Stirs t jump := by
  obtain ⟨tcb, out, _, rfl⟩ := computed
  refine .other (fun both => sequential both.1) ⟨rfl, rfl, rfl, rfl⟩ (fun p apart => ?_) stays
  exact Function.update_of_ne (apart.resolve_right sequential) ..

theorem turnJump_stays (s : State) (seconds : Int) : s.turnJump ≠ .sleep seconds := by
  unfold turnJump
  split <;> nofun

theorem readLockJump_alike (s : State) :
    s.Alike s.readLockJump.1 ∧ s.readLockJump.1.tcbs = s.tcbs ∧
      ∀ seconds, s.readLockJump.2 ≠ .sleep seconds := by
  unfold readLockJump
  split
  · exact ⟨⟨rfl, rfl, rfl, rfl⟩, rfl, nofun⟩
  · exact ⟨⟨rfl, rfl, rfl, rfl⟩, rfl, nofun⟩

theorem writeLockJump_alike (s : State) :
    s.Alike s.writeLockJump.1 ∧ s.writeLockJump.1.tcbs = s.tcbs ∧
      ∀ seconds, s.writeLockJump.2 ≠ .sleep seconds := by
  unfold writeLockJump
  split
  · exact ⟨⟨rfl, rfl, rfl, rfl⟩, rfl, nofun⟩
  · exact ⟨⟨rfl, rfl, rfl, rfl⟩, rfl, nofun⟩

theorem enrollJump_stirs {jump : Jump} (enroll : s.current.routine = .enroll)
    (ran : s.enrollJump = some (t, jump)) : s.Stirs t jump := by
  have later {t : State} {jump : Jump} (env : s.current.env ≠ .setup) (alike : s.Alike t)
      (tcbs : t.tcbs = s.tcbs) (stays : ∀ seconds, jump ≠ .sleep seconds) : s.Stirs t jump :=
    .other (fun both => env both.2) alike (fun p _ => congrFun tcbs p) stays
  unfold enrollJump at ran
  split at ran
  · rename_i env
    dsimp only at ran
    split at ran
    · rename_i first
      cases ran
      exact .sleep enroll env first
    · rename_i awake
      rw [Bool.not_eq_false] at awake
      obtain ⟨woken, found, ends⟩ := Option.map_eq_some_iff.mp ran
      obtain ⟨alike, tcbs, stays⟩ := woken.readLockJump_alike
      rw [ends] at alike tcbs stays
      exact .awake enroll env awake found alike tcbs stays
  · rename_i env
    cases ran
    exact later (by rw [env]; nofun) ⟨rfl, rfl, rfl, rfl⟩ rfl nofun
  · rename_i env
    cases ran
    exact later (by rw [env]; nofun) ⟨rfl, rfl, rfl, rfl⟩ rfl nofun
  · rename_i env
    obtain ⟨alike, tcbs, stays⟩ := s.writeLockJump_alike
    rw [Option.some.inj ran] at alike tcbs stays
    exact later (by rw [env]; nofun) alike tcbs stays
  · rename_i env
    cases ran
    exact later (by rw [env]; nofun) ⟨rfl, rfl, rfl, rfl⟩ rfl nofun
  · rename_i env
    cases ran
    exact later (by rw [env]; nofun) ⟨rfl, rfl, rfl, rfl⟩ rfl nofun

theorem stirs_of_body {jump : Jump} (ran : s.body = some (t, jump)) : s.Stirs t jump := by
  unfold body at ran
  split at ran
  · cases ran
  split at ran
  · rename_i routine
    cases ran
    exact (s.computed_line _).stirs (by rw [routine]; nofun) nofun
  · rename_i routine
    cases ran
    exact (s.loopHead_computed.trans s.loopHead.fibonacciRound_computed).stirs
      (by rw [routine]; nofun) (turnJump_stays _)
  · rename_i routine
    cases ran
    exact (s.loopHead_computed.trans s.loopHead.pmRound_computed).stirs
      (by rw [routine]; nofun) (turnJump_stays _)
  · rename_i routine
    exact enrollJump_stirs routine ran

/-- The running thread writes its own tcb: another one is spared. -/
theorem Spares.of_current {tcb : Tcb} (tcbs : t.tcbs = Function.update s.tcbs s.currentThread tcb)
    (other : p ≠ s.currentThread) (slot : t.sleepingSet[p]? = s.sleepingSet[p]?)
    (timeSlice : t.timeSlice = s.timeSlice) (ready : t.readyQueue = s.readyQueue) :
    Spares p s t :=
  .of_tcb (by rw [tcbs, Function.update_of_ne other]) slot timeSlice fun member => ready ▸ member

theorem Carries.of_current {tcb : Tcb} (tcbs : t.tcbs = Function.update s.tcbs s.currentThread tcb)
    (routine : tcb.routine = s.current.routine) (args : tcb.args = s.current.args)
    (keepgo : tcb.keepgo = s.current.keepgo) (set : t.sleepingSet = s.sleepingSet)
    (timeSlice : t.timeSlice = s.timeSlice) (ready : t.readyQueue = s.readyQueue) :
    Carries p s t := by
  by_cases own : p = s.currentThread
  · subst own
    have same : t.tcbs s.currentThread = tcb := by rw [tcbs, Function.update_self]
    exact
      { routine := by rw [same, routine, current]
        args := by rw [same, args, current]
        keepgo := by rw [same, keepgo, current]
        slot := by rw [set]
        timeSlice := timeSlice }
  · exact (Spares.of_current tcbs own (by rw [set]) timeSlice ready).toCarries

/-- A thread that goes to sleep fills its own entry. -/
theorem asleep_spares (s : State) (seconds : Int) (id : s.current.id = s.currentThread)
    (other : p ≠ s.currentThread) : Spares p s (s.asleep seconds) := by
  refine .of_current rfl other ?_ rfl rfl
  exact List.getElem?_set_ne (by rw [id]; exact Ne.symm other)

/-- Any other jump into the scheduler spares the other threads as well. -/
theorem jumpEntry_spares {jump : Jump} {pass : State × Nat}
    (enters : s.jumpEntry pending jump = some pass) (stays : ∀ seconds, jump ≠ .sleep seconds)
    (other : p ≠ s.currentThread) : Spares p s pass.1 := by
  cases jump with
  | yield k =>
    obtain ⟨signal, _, rfl⟩ := Option.map_eq_some_iff.mp enters
    exact .of_current rfl other rfl rfl rfl
  | exit =>
    rw [← Option.some.inj enters]
    exact .of_tcb rfl rfl rfl fun member => member
  | sleep seconds => exact absurd rfl (stays seconds)
  | park env resource =>
    rw [← Option.some.inj enters]
    exact .of_current rfl other rfl rfl rfl

theorem jumpEntry_carries {jump : Jump} {pass : State × Nat}
    (enters : s.jumpEntry pending jump = some pass) (stays : ∀ seconds, jump ≠ .sleep seconds) :
    Carries p s pass.1 := by
  cases jump with
  | yield k =>
    obtain ⟨signal, _, rfl⟩ := Option.map_eq_some_iff.mp enters
    exact .of_current rfl rfl rfl rfl rfl rfl rfl
  | exit =>
    rw [← Option.some.inj enters]
    exact ⟨rfl, rfl, rfl, rfl, rfl⟩
  | sleep seconds => exact absurd rfl (stays seconds)
  | park env resource =>
    rw [← Option.some.inj enters]
    exact .of_current rfl rfl rfl rfl rfl rfl rfl

theorem sleepMoments_stays {jump : Jump} (stays : ∀ seconds, jump ≠ .sleep seconds) :
    s.sleepMoments jump = [] := by
  cases jump with
  | sleep seconds => exact absurd rfl (stays seconds)
  | yield k => rfl
  | exit => rfl
  | park env resource => rfl

/-- The scheduler that has returned has chosen nobody. -/
theorem Consistent.going (cons : s.Consistent n)
    (finished : s.returned = true → ∀ p, s.Alive n p → p ∈ s.waitingQueue.contents)
    (chosen : s.currentThread ≠ 0) : s.returned = false := by
  refine Bool.eq_false_iff.mpr fun returned => ?_
  exact cons.current_notMem (finished returned _ (cons.running.resolve_left chosen))

end State
end NTUSP.Threads
