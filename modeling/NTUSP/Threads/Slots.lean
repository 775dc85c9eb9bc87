import NTUSP.Threads.Conservation

/-!
# Where the queues are written

Every enqueue writes at the tail index of its queue and then moves it on modulo `THREAD_MAX`.
`stepSlots` lists the indices a step writes at. They are inside the arrays as long as the tails
are, and only `thread_setup` moves a tail on without the modulo.
-/

namespace NTUSP.Threads

open NTUSP.Library

/-- How the running thread hands over: with a yield, or with a jump into the scheduler. -/
inductive Jump where
  | yield (k : Nat)
  | exit
  | sleep (seconds : Int)
  | park (env : Env) (resource : Nat)

namespace State

variable {s t u : State} {pending : Option Signal}

def jump (s : State) (pending : Option Signal) : Jump → State
  | .yield k => s.threadYield k pending
  | .exit => s.threadExit
  | .sleep seconds => s.threadSleep seconds
  | .park env resource => s.park env resource

/-! ## What runs up to the jump -/

/-- The jump at the end of a turn of `fibonacci` or `pm`. -/
def turnJump (s : State) : Jump := if s.current.i = s.current.n then .exit else .yield 0

def readLockJump (s : State) : State × Jump :=
  if s.writeCount ≠ 0 then (s, .park .readLock 4)
  else
    let taken := { s with readCount := s.readCount + 1 }
    (taken.print (.acquireRead taken.current.id), .yield 1)

def releaseJump (s : State) : State × Jump :=
  let released := s.readUnlock
  let pp := s.current.args.getD 0 0 * s.qP
  let ps := s.current.args.getD 1 0 * s.qS
  ({ released with pp := pp, ps := ps }.print (.releaseRead s.current.id pp ps), .yield 2)

def writeLockJump (s : State) : State × Jump :=
  if s.writeCount ≠ 0 ∨ s.readCount ≠ 0 then (s, .park .writeLock 5)
  else
    let taken := { s with writeCount := 1 }
    (taken.print (.acquireWrite taken.current.id (decide (taken.pp > taken.ps))), .yield 3)

/-- `enroll` from its resume point to the jump. -/
def enrollJump (s : State) : Option (State × Jump) :=
  match s.current.env with
  | .setup =>
      let seconds := s.current.args.getD 2 0
      if s.current.keepgo = false then
        some (s.print (.sleep s.current.id seconds), .sleep (seconds + s.timeSlice))
      else (s.threadAwake (s.current.args.getD 3 0)).map readLockJump
  | .readLock => some (s.print (.acquireRead s.current.id), .yield 1)
  | .yield 1 => some s.releaseJump
  | .yield 2 => some s.writeLockJump
  | .writeLock => some (s.print (.acquireWrite s.current.id (decide (s.pp > s.ps))), .yield 3)
  | .yield _ => some (s.writeUnlock.print (.releaseWrite s.current.id), .exit)

/-- The state in which the running thread jumps, and its jump. -/
def body (s : State) : Option (State × Jump) :=
  if s.returned then none
  else
    match s.current.routine with
    | .idle => some (s.print (.idle s.current.id), .yield 0)
    | .fibonacci => some (s.loopHead.fibonacciRound, s.loopHead.fibonacciRound.turnJump)
    | .pm => some (s.loopHead.pmRound, s.loopHead.pmRound.turnJump)
    | .enroll => s.enrollJump

theorem jump_turnJump (s : State) (pending : Option Signal) :
    s.jump pending s.turnJump = s.finishTurn pending := by
  unfold turnJump finishTurn
  split <;> rfl

theorem runEnroll_eq_enrollJump (s : State) (pending : Option Signal) :
    s.runEnroll pending = s.enrollJump.map fun ends => ends.1.jump pending ends.2 := by
  unfold runEnroll enrollJump
  cases s.current.env with
  | setup =>
    dsimp only
    split
    · rfl
    · rw [Option.map_map]
      congr 1
      funext woken
      unfold enrollReadLock Function.comp readLockJump
      split <;> rfl
  | readLock => rfl
  | writeLock => rfl
  | yield k =>
    match k with
    | 0 => rfl
    | 1 => rfl
    | 2 =>
      change some (s.enrollWriteLock pending) = some (s.writeLockJump.1.jump pending _)
      unfold enrollWriteLock writeLockJump
      split <;> rfl
    | k + 3 => rfl

/-- A step is a body and its jump. -/
theorem step_eq_body (s : State) (pending : Option Signal) :
    s.step pending = s.body.map fun ends => ends.1.jump pending ends.2 := by
  unfold step body
  split
  · rfl
  cases s.current.routine with
  | idle => rfl
  | fibonacci => exact congrArg some (jump_turnJump _ _).symm
  | pm => exact congrArg some (jump_turnJump _ _).symm
  | enroll => exact runEnroll_eq_enrollJump s pending

theorem body_of_step (steps : s.step pending = some t) :
    ∃ v jump, s.body = some (v, jump) ∧ t = v.jump pending jump := by
  rw [step_eq_body] at steps
  obtain ⟨⟨v, jump⟩, ran, same⟩ := Option.map_eq_some_iff.mp steps
  exact ⟨v, jump, ran, same.symm⟩

/-! ## The indices -/

/-- Where a turn of the sleeping scan writes. -/
def sleepScanStepSlots (s : State) (i : Nat) : List Nat :=
  match s.sleepingSet.getD i none with
  | none => []
  | some p => if (s.tcbs p).sleepingTime - s.timeSlice ≤ 0 then [s.readyQueue.size] else []

def sleepSlotsFrom (s : State) : List Nat → List Nat
  | [] => []
  | i :: rest => s.sleepScanStepSlots i ++ (s.sleepScanStep i).sleepSlotsFrom rest

def sleepScanSlots (s : State) : List Nat := s.sleepSlotsFrom (List.range THREAD_MAX)

/-- Where the turns of the waiting scan from index `i` on write. -/
def waitSlotsFrom (s : State) (i : Nat) : Nat → List Nat
  | 0 => []
  | count + 1 =>
      (if s.mayProceed (s.waitingQueue.arr.getD i 0) then [s.readyQueue.size] else []) ++
        (s.waitScanStep i).waitSlotsFrom (i + 1) count

def waitScanSlots (s : State) : List Nat :=
  s.waitSlotsFrom s.waitingQueue.head (s.waitingQueue.size - s.waitingQueue.head)

/-- Where the thread that a signal preempts is put. -/
def settleSlots (s : State) (status : Nat) : List Nat :=
  if status = 1 ∧ s.current.id ≠ 0 then [s.readyQueue.size] else []

def schedulerSlots (s : State) (status : Nat) : List Nat :=
  s.createIdle.sleepScanSlots ++ s.createIdle.sleepScan.waitScanSlots ++
    s.scans.settleSlots status

def threadAwakeSlots (s : State) (id : Int) : List Nat :=
  if s.sleepingSet.getD id.toNat none = none then [] else [s.readyQueue.size]

/-- The state in which the jump enters the scheduler, and its status; a yield without a signal
does not. -/
def jumpEntry (s : State) (pending : Option Signal) : Jump → Option (State × Nat)
  | .yield k => pending.map fun signal =>
      ((s.setCurrent { s.current with env := .yield k }).print (.caught signal), 1)
  | .exit => some (s.print (.exit s.current.id), 3)
  | .sleep seconds => some (s.asleep seconds, 2)
  | .park env resource => some (s.parking env resource, resource)

/-- Where the lock macros write before they jump. -/
def parkSlots (s : State) : Jump → List Nat
  | .park _ _ => [s.waitingQueue.size]
  | _ => []

/-- Where `thread_awake` writes, which only `enroll` calls. -/
def bodySlots (s : State) : List Nat :=
  if s.current.routine = .enroll ∧ s.current.env = .setup ∧ s.current.keepgo = true then
    s.threadAwakeSlots (s.current.args.getD 3 0)
  else []

/-- The state in which the step enters the scheduler, and its status. -/
def entry (s : State) (pending : Option Signal) : Option (State × Nat) :=
  s.body.bind fun ends => ends.1.jumpEntry pending ends.2

/-- Where the step writes into `ready_queue.arr` or `waiting_queue.arr`. -/
def stepSlots (s : State) (pending : Option Signal) : List Nat :=
  match s.body with
  | none => []
  | some ends => s.bodySlots ++ ends.1.parkSlots ends.2 ++
      match ends.1.jumpEntry pending ends.2 with
      | none => []
      | some pass => pass.1.schedulerSlots pass.2

/-- Where `spawn_thread` writes. -/
def spawnSlots (s : State) (id : Nat) : List Spec → List Nat
  | [] => []
  | spec :: rest =>
      s.readyQueue.size :: (s.threadSetup spec.routine id spec.args).spawnSlots (id + 1) rest

theorem jump_of_entry {jump : Jump} {pass : State × Nat}
    (enters : s.jumpEntry pending jump = some pass) :
    s.jump pending jump = pass.1.scheduler pass.2 := by
  cases jump with
  | yield k =>
    obtain ⟨signal, signalled, rfl⟩ := Option.map_eq_some_iff.mp enters
    rw [signalled]
    rfl
  | exit =>
    rw [← Option.some.inj enters]
    rfl
  | sleep seconds =>
    rw [← Option.some.inj enters]
    rfl
  | park env resource =>
    rw [← Option.some.inj enters]
    rfl

/-- Only a thread that yields without a signal goes on. -/
theorem jump_of_none {jump : Jump} (goes : s.jumpEntry pending jump = none) :
    ∃ k, s.jump pending jump = s.setCurrent { s.current with env := .yield k } := by
  cases jump with
  | yield k =>
    rw [Option.map_eq_none_iff.mp goes]
    exact ⟨k, rfl⟩
  | exit => cases goes
  | sleep seconds => cases goes
  | park env resource => cases goes

/-! ## The cases of a body -/

/-- The ways from a resume point to the jump. -/
inductive Ends (s : State) : State → Jump → Prop where
  | compute {t : State} (k : Nat) (computed : s.Computed t) : Ends s t (.yield k)
  | finish {t : State} (created : s.current.routine ≠ .idle) (computed : s.Computed t) :
      Ends s t .exit
  | sleep (enroll : s.current.routine = .enroll) (line : Print) (seconds : Int) :
      Ends s (s.print line) (.sleep seconds)
  | readPark {t : State} (enroll : s.current.routine = .enroll) (env : s.current.env = .setup)
      (awake : s.current.keepgo = true)
      (woken : s.threadAwake (s.current.args.getD 3 0) = some t) (busy : t.writeCount ≠ 0) :
      Ends s t (.park .readLock 4)
  | readTake {t : State} (enroll : s.current.routine = .enroll) (env : s.current.env = .setup)
      (awake : s.current.keepgo = true)
      (woken : s.threadAwake (s.current.args.getD 3 0) = some t) (free : t.writeCount = 0)
      (line : Print) :
      Ends s ({ t with readCount := t.readCount + 1 }.print line) (.yield 1)
  | release (pp ps : Int) (line : Print) :
      Ends s ({ s.readUnlock with pp := pp, ps := ps }.print line) (.yield 2)
  | writePark (enroll : s.current.routine = .enroll) : Ends s s (.park .writeLock 5)
  | writeTake (unread : s.readCount = 0) (line : Print) :
      Ends s ({ s with writeCount := 1 }.print line) (.yield 3)
  | leave (line : Print) : Ends s (s.writeUnlock.print line) .exit

theorem computed_line (s : State) (line : Print) : s.Computed (s.print line) := by
  have computed := s.computed_print s.current (.refl _) line
  rwa [setCurrent_self] at computed

theorem turnJump_ends (created : s.current.routine ≠ .idle) (computed : s.Computed t) :
    s.Ends t t.turnJump := by
  unfold turnJump
  split
  · exact .finish created computed
  · exact .compute 0 computed

theorem enrollJump_ends {jump : Jump} (enroll : s.current.routine = .enroll)
    (ran : s.enrollJump = some (t, jump)) : s.Ends t jump := by
  unfold enrollJump at ran
  split at ran
  · rename_i env
    dsimp only at ran
    split at ran
    · cases ran
      exact .sleep enroll _ _
    · rename_i awake
      rw [Bool.not_eq_false] at awake
      obtain ⟨woken, found, ends⟩ := Option.map_eq_some_iff.mp ran
      unfold readLockJump at ends
      split at ends
      · rename_i busy
        cases ends
        exact .readPark enroll env awake found busy
      · rename_i free
        cases ends
        exact .readTake enroll env awake found (Classical.not_not.mp free) _
  · cases ran
    exact .compute 1 (s.computed_line _)
  · cases ran
    exact .release _ _ _
  · have ends := Option.some.inj ran
    unfold writeLockJump at ends
    split at ends
    · cases ends
      exact .writePark enroll
    · rename_i free
      rw [not_or, Classical.not_not, Classical.not_not] at free
      cases ends
      exact .writeTake free.2 _
  · cases ran
    exact .compute 3 (s.computed_line _)
  · cases ran
    exact .leave _

theorem ends_of_body {jump : Jump} (ran : s.body = some (t, jump)) : s.Ends t jump := by
  unfold body at ran
  split at ran
  · cases ran
  split at ran
  · cases ran
    exact .compute 0 (s.computed_line _)
  · rename_i routine
    cases ran
    exact turnJump_ends (by simp [routine])
      (s.loopHead_computed.trans s.loopHead.fibonacciRound_computed)
  · rename_i routine
    cases ran
    exact turnJump_ends (by simp [routine]) (s.loopHead_computed.trans s.loopHead.pmRound_computed)
  · rename_i routine
    exact enrollJump_ends routine ran

/-! ## Entering from a jump -/

variable {n : Nat}

/-- The state as a pass needs it: the thread that enters is in the hand, and was alive. -/
def Enters (n : Nat) (s : State) (status : Nat) : Prop :=
  s.Entered n (s.inHand status) ∧ (s.currentThread = 0 ∨ s.Alive n s.currentThread)

theorem Consistent.yield_enters (cons : s.Consistent n) {k : Nat} {pass : State × Nat}
    (enters : s.jumpEntry pending (.yield k) = some pass) : Enters n pass.1 pass.2 := by
  obtain ⟨signal, _, rfl⟩ := Option.map_eq_some_iff.mp enters
  have saved : (s.setCurrent { s.current with env := .yield k }).Consistent n :=
    cons.setCurrent rfl rfl rfl
  have caught := saved.print (.caught signal)
  exact ⟨caught.entered, caught.running⟩

theorem Entered.exit_enters (entered : s.Entered n s.currentThread)
    (running : s.currentThread = 0 ∨ s.Alive n s.currentThread) {pass : State × Nat}
    (enters : s.jumpEntry pending .exit = some pass) : Enters n pass.1 pass.2 := by
  rw [← Option.some.inj enters]
  exact ⟨entered.print _, running⟩

theorem Consistent.sleep_enters (cons : s.Consistent n) (alive : s.Alive n s.currentThread)
    {seconds : Int} {pass : State × Nat}
    (enters : s.jumpEntry pending (.sleep seconds) = some pass) : Enters n pass.1 pass.2 := by
  rw [← Option.some.inj enters]
  obtain ⟨entered, living⟩ := cons.asleep_entered alive seconds
  exact ⟨entered, .inr living⟩

theorem Consistent.park_enters (cons : s.Consistent n) (alive : s.Alive n s.currentThread)
    {env : Env} {resource : Nat} (waits : s.Waits env resource) {pass : State × Nat}
    (enters : s.jumpEntry pending (.park env resource) = some pass) :
    Enters n pass.1 pass.2 := by
  rw [← Option.some.inj enters]
  obtain ⟨entered, living⟩ := cons.parking_entered alive waits
  have hand : (s.parking env resource).inHand resource = 0 := by
    refine if_neg ?_
    rcases waits with ⟨four, _⟩ | ⟨five, _⟩ <;> omega
  exact ⟨by rw [hand]; exact entered, .inr living⟩

/-- A jump from a consistent state enters the scheduler as a pass needs it. -/
theorem Consistent.enters (cons : s.Consistent n) {jump : Jump} (ends : s.Ends t jump)
    {pass : State × Nat} (enters : t.jumpEntry pending jump = some pass) :
    Enters n pass.1 pass.2 := by
  cases ends with
  | compute k computed => exact (cons.computed computed).yield_enters enters
  | finish created computed =>
    have next := cons.computed computed
    exact next.entered.exit_enters next.running enters
  | sleep enroll line seconds =>
    exact (cons.print line).sleep_enters (cons.alive_of_enroll enroll) enters
  | readPark enroll _ _ woken busy =>
    exact (cons.threadAwake woken).park_enters (cons.alive_of_awake enroll woken)
      (.inl ⟨rfl, rfl, busy⟩) enters
  | readTake enroll _ _ woken free line =>
    exact (((cons.threadAwake woken).readTake free).print line).yield_enters enters
  | release pp ps line => exact ((cons.release pp ps).print line).yield_enters enters
  | writePark enroll =>
    exact cons.park_enters (cons.alive_of_enroll enroll) (.inr ⟨rfl, rfl⟩) enters
  | writeTake unread line => exact ((cons.writeTake unread).print line).yield_enters enters
  | leave line =>
    exact Entered.exit_enters (s := s.writeUnlock.print line) (cons.writeUnlock.print line)
      cons.running enters

/-- A step from a consistent state enters the scheduler as a pass needs it. -/
theorem Consistent.entry_enters (cons : s.Consistent n) {pass : State × Nat}
    (enters : s.entry pending = some pass) : Enters n pass.1 pass.2 := by
  obtain ⟨⟨v, jump⟩, ran, jumps⟩ := Option.bind_eq_some_iff.mp enters
  exact cons.enters (ends_of_body ran) jumps

/-! ## Inside the arrays -/

/-- The tails of both queues are indices of their arrays. -/
structure Below (s : State) : Prop where
  ready : s.readyQueue.size < THREAD_MAX
  waiting : s.waitingQueue.size < THREAD_MAX

theorem enqueue_size_lt (q : TcbQueue) (p : Nat) : (q.enqueue p).size < THREAD_MAX :=
  Nat.mod_lt _ (by decide)

theorem Below.of_same (below : s.Below) (ready : t.readyQueue.size = s.readyQueue.size)
    (waiting : t.waitingQueue.size = s.waitingQueue.size) : t.Below where
  ready := ready ▸ below.ready
  waiting := waiting ▸ below.waiting

/-- An enqueue writes inside the array and leaves the tail there. -/
theorem Below.pushed (below : s.Below) {p : Nat} (ready : t.readyQueue = s.readyQueue.enqueue p)
    (waiting : t.waitingQueue.size = s.waitingQueue.size) : t.Below where
  ready := by
    rw [ready]
    exact enqueue_size_lt _ p
  waiting := waiting ▸ below.waiting

theorem Below.sleepScanStep (below : s.Below) (i : Nat) :
    (s.sleepScanStep i).Below ∧ ∀ slot ∈ s.sleepScanStepSlots i, slot < THREAD_MAX := by
  constructor
  · rcases s.sleepScanStep_cases i with skipped | ⟨p, time, _, counted | woken⟩
    · rw [skipped]
      exact below
    · rw [counted]
      exact below.of_same rfl rfl
    · rw [woken]
      exact below.pushed rfl rfl
  · intro slot member
    unfold sleepScanStepSlots at member
    split at member
    · cases member
    split at member
    · rw [List.mem_singleton.mp member]
      exact below.ready
    · cases member

theorem Below.sleepScan (below : s.Below) :
    s.sleepScan.Below ∧ ∀ slot ∈ s.sleepScanSlots, slot < THREAD_MAX := by
  unfold State.sleepScan sleepScanSlots
  induction List.range THREAD_MAX generalizing s with
  | nil => exact ⟨below, by simp [sleepSlotsFrom]⟩
  | cons i rest ih =>
    obtain ⟨next, first⟩ := below.sleepScanStep i
    obtain ⟨last, later⟩ := ih next
    refine ⟨last, fun slot member => ?_⟩
    rcases List.mem_append.mp member with now | then'
    · exact first slot now
    · exact later slot then'

theorem Below.waitScanFrom (below : s.Below) (i count : Nat) :
    (s.waitScanFrom i count).Below ∧ ∀ slot ∈ s.waitSlotsFrom i count, slot < THREAD_MAX := by
  induction count generalizing s i with
  | zero => exact ⟨below, by simp [waitSlotsFrom]⟩
  | succ count ih =>
    have next : (s.waitScanStep i).Below := by
      unfold waitScanStep
      dsimp only
      split
      · exact below.pushed rfl rfl
      · exact below
    obtain ⟨last, later⟩ := ih next (i + 1)
    refine ⟨last, fun slot member => ?_⟩
    rcases List.mem_append.mp member with now | then'
    · split at now
      · rw [List.mem_singleton.mp now]
        exact below.ready
      · cases now
    · exact later slot then'

theorem Below.scans (below : s.Below) : s.scans.Below ∧
    ∀ slot ∈ s.createIdle.sleepScanSlots ++ s.createIdle.sleepScan.waitScanSlots,
      slot < THREAD_MAX := by
  have idle : s.createIdle.Below := by
    unfold createIdle
    split
    · exact below.of_same rfl rfl
    · exact below
  obtain ⟨slept, first⟩ := idle.sleepScan
  obtain ⟨scanned, second⟩ := slept.waitScanFrom s.createIdle.sleepScan.waitingQueue.head
    (s.createIdle.sleepScan.waitingQueue.size - s.createIdle.sleepScan.waitingQueue.head)
  refine ⟨scanned, fun slot member => ?_⟩
  rcases List.mem_append.mp member with now | then'
  · exact first slot now
  · exact second slot then'

/-- Lines 123 to 133 only move the head of the ready queue. -/
theorem dropSleeping_queues (s : State) (turns : Nat) :
    (s.dropSleeping turns).waitingQueue = s.waitingQueue ∧
      ∃ head, (s.dropSleeping turns).readyQueue = { s.readyQueue with head := head } := by
  induction turns generalizing s with
  | zero => exact ⟨rfl, _, rfl⟩
  | succ turns ih =>
    unfold State.dropSleeping
    split
    · exact ⟨rfl, _, rfl⟩
    dsimp only
    split
    · exact ih { s with readyQueue := s.readyQueue.advance }
    · exact ⟨rfl, _, rfl⟩

/-- The choice of the next thread only moves the head of the ready queue. -/
theorem dispatch_queues (s : State) :
    s.dispatch.waitingQueue = s.waitingQueue ∧
      ∃ head, s.dispatch.readyQueue = { s.readyQueue with head := head } := by
  obtain ⟨waiting, head, ready⟩ := s.dropSleeping_queues THREAD_MAX
  unfold State.dispatch
  split
  · split
    · exact ⟨rfl, _, rfl⟩
    · exact ⟨rfl, _, rfl⟩
  dsimp only
  split
  · exact ⟨waiting, head, ready⟩
  · refine ⟨waiting, (head + 1) % THREAD_MAX, ?_⟩
    rw [ready]
    rfl

theorem Below.dispatch (below : s.Below) : s.dispatch.Below := by
  obtain ⟨waiting, head, ready⟩ := s.dispatch_queues
  exact below.of_same (by rw [ready]) (by rw [waiting])

theorem Below.settle (below : s.Below) (status : Nat) :
    (s.settle status).Below ∧ ∀ slot ∈ s.settleSlots status, slot < THREAD_MAX := by
  constructor
  · unfold State.settle
    split
    · split
      · exact below.pushed rfl rfl
      · exact below
    · split
      · exact below.of_same rfl rfl
      · exact below
  · intro slot member
    unfold settleSlots at member
    split at member
    · rw [List.mem_singleton.mp member]
      exact below.ready
    · cases member

/-- A pass writes inside the arrays and leaves the tails there. -/
theorem Below.scheduler (below : s.Below) (status : Nat) :
    (s.scheduler status).Below ∧ ∀ slot ∈ s.schedulerSlots status, slot < THREAD_MAX := by
  obtain ⟨scanned, scans⟩ := below.scans
  obtain ⟨settled, last⟩ := scanned.settle status
  refine ⟨settled.dispatch, fun slot member => ?_⟩
  rcases List.mem_append.mp member with scan | put
  · exact scans slot scan
  · exact last slot put

theorem Below.entry (below : s.Below) {jump : Jump} {pass : State × Nat}
    (enters : s.jumpEntry pending jump = some pass) : pass.1.Below := by
  cases jump with
  | yield k =>
    obtain ⟨signal, _, rfl⟩ := Option.map_eq_some_iff.mp enters
    exact below.of_same rfl rfl
  | exit =>
    rw [← Option.some.inj enters]
    exact below.of_same rfl rfl
  | sleep seconds =>
    rw [← Option.some.inj enters]
    exact below.of_same rfl rfl
  | park env resource =>
    rw [← Option.some.inj enters]
    exact ⟨below.ready, enqueue_size_lt _ _⟩

theorem Below.computed (below : s.Below) (computed : s.Computed t) : t.Below := by
  obtain ⟨tcb, out, _, same⟩ := computed
  rw [same]
  exact below.of_same rfl rfl

theorem Below.threadAwake (below : s.Below) {id : Int} (woken : s.threadAwake id = some t) :
    t.Below := by
  rcases threadAwake_cases woken with same | ⟨p, _, same⟩
  · rw [same]
    exact below
  · rw [same]
    exact below.pushed rfl rfl

theorem Below.body (below : s.Below) {jump : Jump} (ends : s.Ends t jump) :
    t.Below ∧ ∀ slot ∈ s.bodySlots ++ t.parkSlots jump, slot < THREAD_MAX := by
  have last : t.Below := by
    cases ends with
    | compute _ computed => exact below.computed computed
    | finish _ computed => exact below.computed computed
    | sleep => exact below.of_same rfl rfl
    | readPark _ _ _ woken => exact below.threadAwake woken
    | readTake _ _ _ woken => exact (below.threadAwake woken).of_same rfl rfl
    | release => exact below.of_same rfl rfl
    | writePark => exact below
    | writeTake => exact below.of_same rfl rfl
    | leave => exact below.of_same rfl rfl
  refine ⟨last, fun slot member => ?_⟩
  rcases List.mem_append.mp member with woken | parked
  · unfold bodySlots threadAwakeSlots at woken
    split at woken
    · split at woken
      · cases woken
      · rw [List.mem_singleton.mp woken]
        exact below.ready
    · cases woken
  · cases jump with
    | park env resource =>
      rw [List.mem_singleton.mp parked]
      exact last.waiting
    | yield k => cases parked
    | exit => cases parked
    | sleep seconds => cases parked

/-- A step writes inside the arrays and leaves the tails there. -/
theorem Below.step (below : s.Below) (steps : s.step pending = some t) :
    t.Below ∧ ∀ slot ∈ s.stepSlots pending, slot < THREAD_MAX := by
  obtain ⟨v, jump, ran, jumps⟩ := body_of_step steps
  obtain ⟨here, slots⟩ := below.body (ends_of_body ran)
  unfold stepSlots
  rw [ran]
  dsimp only
  cases enters : v.jumpEntry pending jump with
  | none =>
    obtain ⟨k, goes⟩ := jump_of_none enters
    rw [jumps, goes]
    exact ⟨here.of_same rfl rfl, by simpa using slots⟩
  | some pass =>
    obtain ⟨last, later⟩ := (here.entry enters).scheduler pass.2
    rw [jumps, jump_of_entry enters]
    refine ⟨last, fun slot member => ?_⟩
    rcases List.mem_append.mp member with first | scanned
    · exact slots slot first
    · exact later slot scanned

/-! ## What is not listed is not written -/

/-- The arrays of the queues are kept except at the listed indices. -/
structure Keeps (slots : List Nat) (s t : State) : Prop where
  ready : ∀ i, i ∉ slots → t.readyQueue.arr[i]? = s.readyQueue.arr[i]?
  waiting : ∀ i, i ∉ slots → t.waitingQueue.arr[i]? = s.waitingQueue.arr[i]?

theorem Keeps.of_same {slots : List Nat} (ready : t.readyQueue.arr = s.readyQueue.arr)
    (waiting : t.waitingQueue.arr = s.waitingQueue.arr) : Keeps slots s t where
  ready i _ := by rw [ready]
  waiting i _ := by rw [waiting]

theorem Keeps.trans {first second : List Nat} (before : Keeps first s t)
    (after : Keeps second t u) : Keeps (first ++ second) s u where
  ready i absent := by
    rw [List.mem_append, not_or] at absent
    rw [after.ready i absent.2, before.ready i absent.1]
  waiting i absent := by
    rw [List.mem_append, not_or] at absent
    rw [after.waiting i absent.2, before.waiting i absent.1]

theorem Keeps.push {p : Nat} (ready : t.readyQueue = s.readyQueue.enqueue p)
    (waiting : t.waitingQueue.arr = s.waitingQueue.arr) : Keeps [s.readyQueue.size] s t where
  ready i absent := by
    rw [ready]
    exact List.getElem?_set_ne (Ne.symm (List.mem_singleton.not.mp absent))
  waiting i _ := by rw [waiting]

theorem sleepScanStep_keeps (s : State) (i : Nat) :
    Keeps (s.sleepScanStepSlots i) s (s.sleepScanStep i) := by
  unfold sleepScanStepSlots sleepScanStep
  cases s.sleepingSet.getD i none with
  | none => exact .of_same rfl rfl
  | some p =>
    dsimp only
    split
    · exact .push rfl rfl
    · exact .of_same rfl rfl

theorem sleepScan_keeps (s : State) : Keeps s.sleepScanSlots s s.sleepScan := by
  unfold sleepScanSlots sleepScan
  induction List.range THREAD_MAX generalizing s with
  | nil => exact .of_same rfl rfl
  | cons i rest ih => exact (s.sleepScanStep_keeps i).trans (ih _)

theorem waitScanFrom_keeps (s : State) (i count : Nat) :
    Keeps (s.waitSlotsFrom i count) s (s.waitScanFrom i count) := by
  induction count generalizing s i with
  | zero => exact .of_same rfl rfl
  | succ count ih =>
    refine Keeps.trans ?_ (ih (s.waitScanStep i) (i + 1))
    unfold waitScanStep
    dsimp only
    split
    · exact .push rfl rfl
    · exact .of_same rfl rfl

theorem waitScan_keeps (s : State) : Keeps s.waitScanSlots s s.waitScan :=
  s.waitScanFrom_keeps _ _

theorem settle_keeps (s : State) (status : Nat) :
    Keeps (s.settleSlots status) s (s.settle status) := by
  unfold settleSlots settle
  by_cases signalled : status = 1
  · rw [if_pos signalled]
    by_cases created : s.current.id ≠ 0
    · rw [if_pos created, if_pos ⟨signalled, created⟩]
      exact .push rfl rfl
    · rw [if_neg created, if_neg fun both => created both.2]
      exact .of_same rfl rfl
  · rw [if_neg signalled, if_neg fun both => signalled both.1]
    split
    · exact .of_same rfl rfl
    · exact .of_same rfl rfl

theorem dispatch_keeps (s : State) : Keeps [] s s.dispatch := by
  obtain ⟨waiting, head, ready⟩ := s.dispatch_queues
  exact .of_same (by rw [ready]) (by rw [waiting])

theorem scheduler_keeps (s : State) (status : Nat) :
    Keeps (s.schedulerSlots status) s (s.scheduler status) := by
  have idle : Keeps [] s s.createIdle := by
    unfold createIdle
    split
    · exact .of_same rfl rfl
    · exact .of_same rfl rfl
  have scanned : Keeps (s.createIdle.sleepScanSlots ++ s.createIdle.sleepScan.waitScanSlots)
      s s.scans :=
    idle.trans (s.createIdle.sleepScan_keeps.trans s.createIdle.sleepScan.waitScan_keeps)
  have whole := (scanned.trans (s.scans.settle_keeps status)).trans
    (s.scans.settle status).dispatch_keeps
  rw [List.append_nil] at whole
  exact whole

theorem threadAwake_keeps {id : Int} (woken : s.threadAwake id = some t) :
    Keeps (s.threadAwakeSlots id) s t := by
  unfold threadAwake at woken
  unfold threadAwakeSlots
  split at woken
  · split at woken
    · rename_i vacant
      rw [if_pos vacant, ← Option.some.inj woken]
      exact .of_same rfl rfl
    · rename_i p asleep
      rw [if_neg (by rw [asleep]; exact Option.some_ne_none p), ← Option.some.inj woken]
      exact .push rfl rfl
  · cases woken

theorem Ends.keeps {jump : Jump} (ends : s.Ends t jump) : Keeps s.bodySlots s t := by
  cases ends with
  | compute _ computed =>
    obtain ⟨tcb, out, _, same⟩ := computed
    rw [same]
    exact .of_same rfl rfl
  | finish _ computed =>
    obtain ⟨tcb, out, _, same⟩ := computed
    rw [same]
    exact .of_same rfl rfl
  | sleep => exact .of_same rfl rfl
  | readPark enroll env awake woken =>
    unfold bodySlots
    rw [if_pos ⟨enroll, env, awake⟩]
    exact threadAwake_keeps woken
  | readTake enroll env awake woken =>
    unfold bodySlots
    rw [if_pos ⟨enroll, env, awake⟩]
    have found := threadAwake_keeps woken
    exact ⟨found.ready, found.waiting⟩
  | release => exact .of_same rfl rfl
  | writePark => exact .of_same rfl rfl
  | writeTake => exact .of_same rfl rfl
  | leave => exact .of_same rfl rfl

theorem jumpEntry_keeps {jump : Jump} {pass : State × Nat}
    (enters : s.jumpEntry pending jump = some pass) : Keeps (s.parkSlots jump) s pass.1 := by
  cases jump with
  | yield k =>
    obtain ⟨signal, _, rfl⟩ := Option.map_eq_some_iff.mp enters
    exact .of_same rfl rfl
  | exit =>
    rw [← Option.some.inj enters]
    exact .of_same rfl rfl
  | sleep seconds =>
    rw [← Option.some.inj enters]
    exact .of_same rfl rfl
  | park env resource =>
    rw [← Option.some.inj enters]
    exact
      { ready := fun i _ => rfl
        waiting := fun i absent =>
          List.getElem?_set_ne (Ne.symm (List.mem_singleton.not.mp absent)) }

/-- A step writes into the arrays of the queues only where it is listed to. -/
theorem step_keeps (steps : s.step pending = some t) : Keeps (s.stepSlots pending) s t := by
  obtain ⟨v, jump, ran, jumps⟩ := body_of_step steps
  have body := (ends_of_body ran).keeps
  unfold stepSlots
  rw [ran]
  dsimp only
  cases enters : v.jumpEntry pending jump with
  | none =>
    obtain ⟨k, goes⟩ := jump_of_none enters
    rw [jumps, goes, List.append_nil]
    exact body.trans (.of_same rfl rfl)
  | some pass =>
    rw [jumps, jump_of_entry enters]
    exact (body.trans (jumpEntry_keeps enters)).trans (pass.1.scheduler_keeps pass.2)

end State
end NTUSP.Threads
