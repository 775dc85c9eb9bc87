import NTUSP.Threads.Steps

/-!
# Steps keep the state consistent

A thread that yields, exits, sleeps or parks enters the scheduler in the state the pass
needs, so every step leads from a consistent state to a consistent one. `LockStep` and
`Moved` say what else a step does, and the results on the locks are case analyses over
them.
-/

namespace NTUSP.Threads

open NTUSP.Library

namespace State

variable {n k hand p : Nat} {s t : State} {pending : Option Signal} {tcb : Tcb}

/-! ## Changes that stay away from the queues -/

/-- The thread that runs is not a waiter. -/
theorem Consistent.current_notMem (cons : s.Consistent n) :
    s.currentThread ∉ s.waitingQueue.contents := fun member =>
  (cons.accounted.alive_of_waiting member).2 rfl

theorem Consistent.entered (cons : s.Consistent n) : s.Entered n s.currentThread where
  toAccounted := cons.accounted
  toWaiters := cons.toWaiters
  uniform ordered unwritten _ := cons.settled ordered unwritten

/-- Consistency reads the waiters, the counts and the accounts only. -/
theorem Consistent.of_same (cons : s.Consistent n) (accounted : t.Accounted n s.currentThread)
    (current : t.currentThread = s.currentThread) (waiting : t.waitingQueue = s.waitingQueue)
    (freed : ∀ p, p ≠ 0 → (t.tcbs p).freed = (s.tcbs p).freed)
    (waiters : ∀ p ∈ s.waitingQueue.contents,
      (t.tcbs p).waitingFor = (s.tcbs p).waitingFor ∧ (t.tcbs p).env = (s.tcbs p).env)
    (exclusive : t.writeCount ≠ 0 → t.readCount = 0)
    (unwritten : t.writeCount = 0 → s.writeCount = 0) : t.Consistent n where
  accounted := by rwa [current]
  running := by
    rw [current, Accounted.alive_of_freed freed]
    exact cons.running
  parked p member := by
    rw [waiting] at member
    unfold Tcb.Parked
    rw [(waiters p member).1, (waiters p member).2]
    exact cons.parked p member
  exclusive := exclusive
  settled ordered free p member := by
    rw [waiting] at ordered member
    rw [(waiters p member).1]
    exact cons.settled ordered (unwritten free) p member

theorem Accounted.of_tables (acc : s.Accounted n hand) (tcbs : t.tcbs = s.tcbs)
    (ready : t.readyQueue = s.readyQueue) (waiting : t.waitingQueue = s.waitingQueue)
    (sleeping : t.sleepingSet = s.sleepingSet) : t.Accounted n hand :=
  acc.of_same ready waiting sleeping (tcbs ▸ acc.ids) (tcbs ▸ acc.idle) fun p _ => by rw [tcbs]

/-- Output, the counts and the shared locals of `enroll` may change. -/
theorem Consistent.of_tables (cons : s.Consistent n) (tcbs : t.tcbs = s.tcbs)
    (current : t.currentThread = s.currentThread) (ready : t.readyQueue = s.readyQueue)
    (waiting : t.waitingQueue = s.waitingQueue) (sleeping : t.sleepingSet = s.sleepingSet)
    (exclusive : t.writeCount ≠ 0 → t.readCount = 0)
    (unwritten : t.writeCount = 0 → s.writeCount = 0) : t.Consistent n :=
  cons.of_same (cons.accounted.of_tables tcbs ready waiting sleeping) current waiting
    (fun p _ => by rw [tcbs]) (fun p _ => by rw [tcbs]; exact ⟨rfl, rfl⟩) exclusive unwritten

theorem Consistent.print (cons : s.Consistent n) (line : Print) : (s.print line).Consistent n :=
  cons.of_tables rfl rfl rfl rfl rfl cons.exclusive id

theorem Entered.print (entered : s.Entered n hand) (line : Print) :
    (s.print line).Entered n hand :=
  { entered.toAccounted.of_tables rfl rfl rfl rfl with
    parked := entered.parked
    exclusive := entered.exclusive
    uniform := entered.uniform }

theorem Accounted.setCurrent (acc : s.Accounted n hand) (id : tcb.id = s.currentThread)
    (routine : s.currentThread = 0 → tcb.routine = .idle) (freed : tcb.freed = s.current.freed) :
    (s.setCurrent tcb).Accounted n hand := by
  refine acc.of_same rfl rfl rfl (fun p => ?_) ?_ fun p _ => setTcb_freed freed p
  · by_cases same : p = s.currentThread
    · simpa [State.setCurrent, State.setTcb, same] using id
    · simpa [State.setCurrent, State.setTcb, same] using acc.ids p
  · by_cases idle : s.currentThread = 0
    · simpa [State.setCurrent, State.setTcb, idle] using routine idle
    · simpa [State.setCurrent, State.setTcb, Ne.symm idle] using acc.idle

/-- The running thread may write its own tcb. -/
theorem Consistent.setCurrent (cons : s.Consistent n) (id : tcb.id = s.current.id)
    (routine : tcb.routine = s.current.routine) (freed : tcb.freed = s.current.freed) :
    (s.setCurrent tcb).Consistent n := by
  have ids : s.current.id = s.currentThread := cons.accounted.ids _
  have idle : s.currentThread = 0 → tcb.routine = .idle := by
    intro zero
    rw [routine, current, zero]
    exact cons.accounted.idle
  refine cons.of_same (cons.accounted.setCurrent (id.trans ids) idle freed) rfl rfl
    (fun p _ => setTcb_freed freed p) (fun p member => ?_) cons.exclusive fun free => free
  have other : p ≠ s.currentThread := by
    rintro rfl
    exact cons.current_notMem member
  simp [State.setCurrent, State.setTcb, other]

/-! ## What a step leads to -/

/-- What becomes of a state when the thread goes on, or when a pass takes over. -/
structure After (n : Nat) (s t : State) : Prop where
  consistent : t.Consistent n
  kept : s.Kept t
  waiting : t.waitingQueue = s.waitingQueue ∨ (¬ s.waitingQueue.Wrapped ∧
    ¬ t.waitingQueue.Wrapped ∧ t.waitingQueue.contents = [])
  finished : t.returned = true → (∀ p, t.Alive n p → p ∈ t.waitingQueue.contents) ∧
    (¬ s.waitingQueue.Wrapped → t.writeCount = 0 → t.readCount = 0 →
      t.waitingQueue.contents = [])

theorem Consistent.after (cons : s.Consistent n) (running : s.returned = false) : After n s s where
  consistent := cons
  kept := (Scanned.refl s).toKept
  waiting := .inl rfl
  finished returned := by
    rw [running] at returned
    cases returned

/-- Only the tcbs, the counts and the waiting queue of the first state matter. -/
theorem After.of_same {u : State} (after : After n s t) (tcbs : u.tcbs = s.tcbs)
    (readCount : u.readCount = s.readCount) (writeCount : u.writeCount = s.writeCount)
    (waiting : u.waitingQueue = s.waitingQueue) : After n u t where
  consistent := after.consistent
  kept :=
    { tcb := tcbs ▸ after.kept.tcb
      readCount := readCount ▸ after.kept.readCount
      writeCount := writeCount ▸ after.kept.writeCount }
  waiting := waiting ▸ after.waiting
  finished := waiting ▸ after.finished

theorem exited_counts (s : State) (status : Nat) :
    (s.exited status).readCount = s.readCount ∧ (s.exited status).writeCount = s.writeCount ∧
      (s.exited status).waitingQueue = s.waitingQueue := by
  unfold exited
  split <;> exact ⟨rfl, rfl, rfl⟩

theorem Entered.after (status : Nat) (entered : s.Entered n (s.inHand status))
    (running : s.currentThread = 0 ∨ s.Alive n s.currentThread) (before : s.returned = false) :
    After n (s.exited status) (s.scheduler status) := by
  have kept := entered.scheduler_kept running
  obtain ⟨readCount, writeCount, waitingQueue⟩ := s.exited_counts status
  refine
    { consistent := entered.scheduler running
      kept := kept
      waiting := ?_
      finished := fun returned => ⟨entered.scheduler_returned running before returned, ?_⟩ }
  · rw [waitingQueue]
    exact (entered.scheduler_waiting running).imp And.left id
  · intro ordered unwritten unread
    rw [waitingQueue] at ordered
    rw [kept.writeCount, writeCount] at unwritten
    rw [kept.readCount, readCount] at unread
    rcases entered.scheduler_waiting running with ⟨_, held⟩ | ⟨_, _, empty⟩
    · rcases held with wrapped | writer | reader
      · exact absurd wrapped ordered
      · exact absurd unwritten writer
      · exact absurd unread reader
    · exact empty

/-- `thread_yield` saves the resume point, and a signal hands over to the scheduler. -/
theorem Consistent.threadYield (cons : s.Consistent n) (before : s.returned = false) :
    After n (s.setCurrent { s.current with env := .yield k }) (s.threadYield k pending) := by
  have saved : (s.setCurrent { s.current with env := .yield k }).Consistent n :=
    cons.setCurrent rfl rfl rfl
  cases pending with
  | none => exact saved.after before
  | some signal =>
    have caught := saved.print (.caught signal)
    exact (caught.entered.after 1 caught.running before).of_same rfl rfl rfl rfl

/-- `thread_exit` frees the thread. -/
theorem Entered.threadExit (entered : s.Entered n s.currentThread)
    (running : s.currentThread = 0 ∨ s.Alive n s.currentThread) (before : s.returned = false) :
    After n (s.setCurrent { s.current with freed := true }) s.threadExit := by
  have printed := entered.print (.exit s.current.id)
  have after : After n ((s.print (.exit s.current.id)).exited 3) s.threadExit :=
    Entered.after (s := s.print (.exit s.current.id)) 3 printed running before
  exact after.of_same rfl rfl rfl rfl

/-- The state in which a thread that goes to sleep enters the scheduler. -/
def asleep (s : State) (seconds : Int) : State :=
  { s.setCurrent { s.current with sleepingTime := seconds } with
    sleepingSet := s.sleepingSet.set s.current.id (some s.currentThread) }

theorem Consistent.asleep_entered (cons : s.Consistent n) (alive : s.Alive n s.currentThread)
    (seconds : Int) :
    (s.asleep seconds).Entered n 0 ∧
      (s.asleep seconds).Alive n (s.asleep seconds).currentThread := by
  have id : s.current.id = s.currentThread := cons.accounted.ids _
  have saved : (s.setCurrent { s.current with sleepingTime := seconds }).Consistent n :=
    cons.setCurrent rfl rfl rfl
  refine ⟨?_, saved.running.resolve_left (Accounted.created_of_alive alive)⟩
  unfold asleep
  rw [id]
  exact
    { cons.accounted.sleep alive { s.current with sleepingTime := seconds } id rfl with
      parked := saved.parked
      exclusive := saved.exclusive
      uniform := saved.entered.uniform }

/-- `thread_sleep` puts the thread into its entry of the sleeping set. -/
theorem Consistent.threadSleep (cons : s.Consistent n) (alive : s.Alive n s.currentThread)
    (before : s.returned = false) (seconds : Int) :
    After n (s.setCurrent { s.current with sleepingTime := seconds }) (s.threadSleep seconds) := by
  obtain ⟨entered, running⟩ := cons.asleep_entered alive seconds
  exact (entered.after 2 (.inr running) before).of_same rfl rfl rfl rfl

/-- The running thread fits into the waiting queue. -/
theorem Consistent.waiting_room (cons : s.Consistent n) (alive : s.Alive n s.currentThread) :
    s.waitingQueue.contents.length + 1 < THREAD_MAX :=
  cons.accounted.room (Accounted.waiting_le_queued s) ⟨alive.1, alive.2.1⟩ cons.current_notMem

/-- The state in which a parking thread enters the scheduler. -/
def parking (s : State) (env : Env) (resource : Nat) : State :=
  { s.setCurrent { s.current with env := env, waitingFor := resource } with
    waitingQueue := s.waitingQueue.enqueue s.currentThread }

/-- The resource a parking thread waits for and its resume point: a reader waits only while
somebody writes. -/
def Waits (s : State) (env : Env) (resource : Nat) : Prop :=
  (resource = 4 ∧ env = .readLock ∧ s.writeCount ≠ 0) ∨ (resource = 5 ∧ env = .writeLock)

theorem Consistent.parking_entered (cons : s.Consistent n) (alive : s.Alive n s.currentThread)
    {env : Env} {resource : Nat} (waits : s.Waits env resource) :
    (s.parking env resource).Entered n 0 ∧
      (s.parking env resource).Alive n (s.parking env resource).currentThread := by
  have id : s.current.id = s.currentThread := cons.accounted.ids _
  have room := cons.waiting_room alive
  have grown : (s.parking env resource).waitingQueue.contents =
      s.waitingQueue.contents ++ [s.currentThread] :=
    TcbQueue.contents_enqueue cons.accounted.waiting s.currentThread room
  have own : (s.parking env resource).tcbs s.currentThread =
      { s.current with env := env, waitingFor := resource } := Function.update_self ..
  have others : ∀ p ∈ s.waitingQueue.contents, (s.parking env resource).tcbs p = s.tcbs p := by
    intro p member
    refine Function.update_of_ne ?_ ..
    rintro rfl
    exact cons.current_notMem member
  constructor
  · refine
      { cons.accounted.waitingPush alive { s.current with env := env, waitingFor := resource }
          id rfl with
        parked := fun p member => ?_
        exclusive := cons.exclusive
        uniform := fun ordered unwritten reader p member => ?_ }
    · rw [grown] at member
      rcases List.mem_append.mp member with member | member
      · rw [others p member]
        exact cons.parked p member
      · rw [List.mem_singleton.mp member, own]
        rcases waits with ⟨four, reads, _⟩ | ⟨five, writes⟩
        · exact .inl ⟨four, reads⟩
        · exact .inr ⟨five, writes⟩
    · rw [grown] at member
      have before : ¬ s.waitingQueue.Wrapped := fun wrapped => ordered
        ((TcbQueue.enqueue_wrapped cons.accounted.waiting s.currentThread room).mpr (.inl wrapped))
      rcases List.mem_append.mp member with member | member
      · rw [others p member]
        exact cons.settled before unwritten p member
      · rw [List.mem_singleton.mp member, own]
        rcases waits with ⟨_, _, writer⟩ | ⟨five, _⟩
        · exact absurd unwritten writer
        · exact five
  · refine ⟨alive.1, alive.2.1, ?_⟩
    change ((s.parking env resource).tcbs s.currentThread).freed = false
    rw [own]
    exact alive.2.2

/-- `read_lock` and `write_lock` put a thread that has to wait into the waiting queue. A
reader waits only while somebody writes, so it is never scanned with readers inside. -/
theorem Consistent.park (cons : s.Consistent n) (alive : s.Alive n s.currentThread)
    (before : s.returned = false) {env : Env} {resource : Nat} (waits : s.Waits env resource) :
    After n (s.parking env resource) (s.park env resource) := by
  obtain ⟨entered, running⟩ := cons.parking_entered alive waits
  have asks : resource ≠ 1 ∧ resource ≠ 3 := by
    rcases waits with ⟨four, _⟩ | ⟨five, _⟩ <;> omega
  have hand : (s.parking env resource).inHand resource = 0 := if_neg (by omega)
  have exits : (s.parking env resource).exited resource = s.parking env resource := if_neg asks.2
  rw [← hand] at entered
  have after := entered.after resource (.inr running) before
  rw [exits] at after
  exact after

/-! ## The step -/

/-- What a step makes of the resume point of the running thread, whether the thread exits,
the waiting queue before the scan, and the lock counts. -/
inductive LockStep (s : State) : Env → Bool → TcbQueue → Int → Int → Prop where
  | compute (sequential : s.current.routine ≠ .enroll) :
      LockStep s (.yield 0) false s.waitingQueue s.readCount s.writeCount
  | finish (sequential : s.current.routine ≠ .enroll) :
      LockStep s s.current.env true s.waitingQueue s.readCount s.writeCount
  | sleep (enroll : s.current.routine = .enroll) (env : s.current.env = .setup)
      (first : s.current.keepgo = false) :
      LockStep s .setup false s.waitingQueue s.readCount s.writeCount
  | readPark (enroll : s.current.routine = .enroll) (env : s.current.env = .setup)
      (awake : s.current.keepgo = true) (busy : s.writeCount ≠ 0) :
      LockStep s .readLock false (s.waitingQueue.enqueue s.currentThread) s.readCount s.writeCount
  | readTake (enroll : s.current.routine = .enroll) (env : s.current.env = .setup)
      (free : s.writeCount = 0) :
      LockStep s (.yield 1) false s.waitingQueue (s.readCount + 1) s.writeCount
  | readResume (enroll : s.current.routine = .enroll) (env : s.current.env = .readLock) :
      LockStep s (.yield 1) false s.waitingQueue s.readCount s.writeCount
  | release (enroll : s.current.routine = .enroll) (env : s.current.env = .yield 1) :
      LockStep s (.yield 2) false s.waitingQueue
        (if s.readCount > 0 then s.readCount - 1 else s.readCount) s.writeCount
  | writePark (enroll : s.current.routine = .enroll) (env : s.current.env = .yield 2)
      (busy : s.writeCount ≠ 0 ∨ s.readCount ≠ 0) :
      LockStep s .writeLock false (s.waitingQueue.enqueue s.currentThread) s.readCount s.writeCount
  | writeTake (enroll : s.current.routine = .enroll) (env : s.current.env = .yield 2)
      (unwritten : s.writeCount = 0) (unread : s.readCount = 0) :
      LockStep s (.yield 3) false s.waitingQueue s.readCount 1
  | writeResume (enroll : s.current.routine = .enroll) (env : s.current.env = .writeLock) :
      LockStep s (.yield 3) false s.waitingQueue s.readCount s.writeCount
  | leave {k : Nat} (enroll : s.current.routine = .enroll) (env : s.current.env = .yield k)
      (last : k ≠ 1 ∧ k ≠ 2) :
      LockStep s s.current.env true s.waitingQueue s.readCount
        (if s.writeCount = 1 then 0 else s.writeCount)

/-- The rest of a step: the running thread has its new resume point, the tcbs of the
others are kept, and the waiting queue has been scanned. -/
structure Moved (n : Nat) (s t : State) (env : Env) (exits : Bool) (queue : TcbQueue) : Prop where
  consistent : t.Consistent n
  others : ∀ p, p ≠ 0 → p ≠ s.currentThread → (s.tcbs p).Kept (t.tcbs p)
  routine : s.currentThread ≠ 0 → (t.tcbs s.currentThread).routine = s.current.routine
  args : s.currentThread ≠ 0 → (t.tcbs s.currentThread).args = s.current.args
  env : s.currentThread ≠ 0 → (t.tcbs s.currentThread).env = env
  freed : s.currentThread ≠ 0 → (t.tcbs s.currentThread).freed = exits
  waiting : t.waitingQueue = queue ∨
    (¬ queue.Wrapped ∧ ¬ t.waitingQueue.Wrapped ∧ t.waitingQueue.contents = [])
  finished : t.returned = true → (∀ p, t.Alive n p → p ∈ t.waitingQueue.contents) ∧
    (¬ queue.Wrapped → t.writeCount = 0 → t.readCount = 0 → t.waitingQueue.contents = [])

/-- What the running thread may do to the tables before it yields, exits or parks. -/
structure Body (n : Nat) (s v : State) : Prop where
  tcb : ∀ p, p ≠ 0 → (s.tcbs p).Kept (v.tcbs p)
  currentThread : v.currentThread = s.currentThread
  returned : v.returned = false
  living : s.currentThread ≠ 0 → s.current.freed = false

theorem Consistent.current_freed (cons : s.Consistent n) (created : s.currentThread ≠ 0) :
    s.current.freed = false :=
  (cons.running.resolve_left created).2.2

theorem Consistent.alive_of_enroll (cons : s.Consistent n)
    (enroll : s.current.routine = .enroll) : s.Alive n s.currentThread := by
  refine cons.running.resolve_left fun idle => ?_
  rw [current, idle, cons.accounted.idle] at enroll
  cases enroll

variable {u v : State} {env : Env} {exits : Bool}

theorem Consistent.body (cons : s.Consistent n) (scanned : s.Scanned v)
    (before : s.returned = false) : Body n s v where
  tcb := scanned.tcb
  currentThread := scanned.currentThread
  returned := scanned.returned.trans before
  living := cons.current_freed

/-- A step in terms of the state `u` the running thread leaves behind. -/
theorem After.step (after : After n u t) (body : Body n s v)
    (lock : s.LockStep env exits u.waitingQueue u.readCount u.writeCount)
    (tcbs : u.tcbs = (v.setCurrent tcb).tcbs) (routine : tcb.routine = v.current.routine)
    (args : tcb.args = v.current.args) (resume : tcb.env = env)
    (freed : tcb.freed = (exits || v.current.freed)) :
    ∃ env exits queue, s.LockStep env exits queue t.readCount t.writeCount ∧
      s.Moved n t env exits queue := by
  have own : u.tcbs s.currentThread = tcb := by
    rw [tcbs, ← body.currentThread]
    exact v.setCurrent_current tcb
  have before : s.currentThread ≠ 0 → s.current.Kept v.current := fun created => by
    unfold current
    rw [body.currentThread]
    exact body.tcb _ created
  refine ⟨env, exits, u.waitingQueue, ?_, ?_⟩
  · rw [after.kept.readCount, after.kept.writeCount]
    exact lock
  · refine
      { consistent := after.consistent
        others := fun p created other => ?_
        routine := fun created => ?_
        args := fun created => ?_
        env := fun created => ?_
        freed := fun created => ?_
        waiting := after.waiting
        finished := after.finished }
    · rw [← body.currentThread] at other
      have same : u.tcbs p = v.tcbs p := by
        rw [tcbs]
        exact Function.update_of_ne other ..
      exact (same ▸ body.tcb p created).trans (after.kept.tcb p created)
    · rw [(after.kept.tcb _ created).routine, own, routine, (before created).routine]
    · rw [(after.kept.tcb _ created).args, own, args, (before created).args]
    · rw [(after.kept.tcb _ created).env, own, resume]
    · rw [(after.kept.tcb _ created).freed, own, freed, (before created).freed,
        body.living created, Bool.or_false]

theorem Consistent.yields (cons : v.Consistent n) (body : Body n s v)
    (lock : s.LockStep (.yield k) false v.waitingQueue v.readCount v.writeCount) :
    ∃ env exits queue,
      s.LockStep env exits queue (v.threadYield k pending).readCount
        (v.threadYield k pending).writeCount ∧
      s.Moved n (v.threadYield k pending) env exits queue :=
  (cons.threadYield body.returned).step body lock rfl rfl rfl rfl rfl

theorem Entered.leaves (entered : v.Entered n v.currentThread)
    (running : v.currentThread = 0 ∨ v.Alive n v.currentThread) (body : Body n s v)
    (lock : s.LockStep v.current.env true v.waitingQueue v.readCount v.writeCount) :
    ∃ env exits queue, s.LockStep env exits queue v.threadExit.readCount v.threadExit.writeCount ∧
      s.Moved n v.threadExit env exits queue :=
  (entered.threadExit running body.returned).step body lock rfl rfl rfl rfl rfl

theorem Consistent.parks (cons : v.Consistent n) (body : Body n s v)
    (alive : v.Alive n v.currentThread) {resource : Nat} (waits : v.Waits env resource)
    (lock : s.LockStep env false (v.waitingQueue.enqueue v.currentThread) v.readCount
      v.writeCount) :
    ∃ env' exits queue,
      s.LockStep env' exits queue (v.park env resource).readCount (v.park env resource).writeCount ∧
      s.Moved n (v.park env resource) env' exits queue :=
  (cons.park alive body.returned waits).step body lock rfl rfl rfl rfl rfl

theorem Computed.scanned (computed : s.Computed t) : s.Scanned t := by
  obtain ⟨tcb, out, kept, same⟩ := computed
  subst same
  exact { Scanned.setTcb kept with }

theorem Computed.waitingQueue (computed : s.Computed t) : t.waitingQueue = s.waitingQueue := by
  obtain ⟨tcb, out, _, same⟩ := computed
  subst same
  rfl

theorem Consistent.computed (cons : s.Consistent n) (computed : s.Computed t) :
    t.Consistent n := by
  obtain ⟨tcb, out, kept, same⟩ := computed
  subst same
  exact (cons.setCurrent kept.id kept.routine kept.freed).of_tables rfl rfl rfl rfl rfl
    cons.exclusive fun free => free

theorem Consistent.threadAwake (cons : s.Consistent n) {id : Int}
    (woken : s.threadAwake id = some t) : t.Consistent n := by
  obtain ⟨scanned, waiting⟩ := threadAwake_scanned woken
  have accounted : t.Accounted n s.currentThread := by
    rcases threadAwake_cases woken with same | ⟨p, asleep, same⟩
    · subst same
      exact cons.accounted
    · subst same
      exact cons.accounted.awaken asleep (cons.accounted.ids p) rfl
  refine cons.of_same accounted scanned.currentThread waiting
    (fun p created => (scanned.tcb p created).freed) (fun p member => ?_) ?_ ?_
  · have created := Accounted.created_of_alive (cons.accounted.alive_of_waiting member).1
    exact ⟨(scanned.tcb p created).waitingFor, (scanned.tcb p created).env⟩
  · rw [scanned.writeCount, scanned.readCount]
    exact cons.exclusive
  · rw [scanned.writeCount]
    exact fun free => free

/-- The exit that follows `write_unlock` enters the scheduler with no reader inside, unless
the unlock did nothing. -/
theorem Consistent.writeUnlock (cons : s.Consistent n) :
    s.writeUnlock.Entered n s.currentThread := by
  have same : s.writeUnlock.writeCount = 0 → s.readCount ≠ 0 → s.writeCount = 0 := by
    intro unwritten reader
    by_cases writer : s.writeCount = 0
    · exact writer
    · exact absurd (cons.exclusive writer) reader
  refine
    { cons.accounted.of_tables rfl rfl rfl rfl with
      parked := cons.parked
      exclusive := fun writer => cons.exclusive ?_
      uniform := fun ordered unwritten reader => cons.settled ordered (same unwritten reader) }
  rintro zero
  simp [State.writeUnlock, zero] at writer

/-- `read_lock` counts a reader in while nobody writes. -/
theorem Consistent.readTake (cons : s.Consistent n) (free : s.writeCount = 0) :
    { s with readCount := s.readCount + 1 }.Consistent n :=
  cons.of_tables rfl rfl rfl rfl rfl (fun writer => absurd free writer) fun free => free

/-- `read_unlock` counts no reader out while somebody writes. -/
theorem Consistent.release (cons : s.Consistent n) (pp ps : Int) :
    { s.readUnlock with pp := pp, ps := ps }.Consistent n := by
  refine cons.of_tables rfl rfl rfl rfl rfl (fun writer => ?_) fun free => free
  have unread := cons.exclusive writer
  simp [readUnlock, unread]

/-- `write_lock` counts a writer in while nobody reads. -/
theorem Consistent.writeTake (cons : s.Consistent n) (unread : s.readCount = 0) :
    { s with writeCount := 1 }.Consistent n :=
  cons.of_tables rfl rfl rfl rfl rfl (fun _ => unread) fun one => absurd one Int.one_ne_zero

/-- A thread past `thread_awake` is still a living one. -/
theorem Consistent.alive_of_awake (cons : s.Consistent n) (enroll : s.current.routine = .enroll)
    {id : Int} (woken : s.threadAwake id = some t) : t.Alive n t.currentThread := by
  obtain ⟨scanned, _⟩ := threadAwake_scanned woken
  have created := Accounted.created_of_alive (cons.alive_of_enroll enroll)
  refine (cons.threadAwake woken).alive_of_enroll ?_
  rw [current, scanned.currentThread, (scanned.tcb _ created).routine]
  exact enroll

/-- Every step is one of the listed ones and leads to a consistent state. -/
theorem Consistent.step (cons : s.Consistent n) (steps : s.step pending = some t) :
    ∃ env exits queue, s.LockStep env exits queue t.readCount t.writeCount ∧
      s.Moved n t env exits queue := by
  obtain ⟨before, stepTo⟩ := step_cases steps
  have here : Body n s s := cons.body (.refl s) before
  cases stepTo with
  | compute sequential computed =>
    have scanned := computed.scanned
    refine (cons.computed computed).yields (cons.body scanned before) ?_
    rw [computed.waitingQueue, scanned.readCount, scanned.writeCount]
    exact .compute sequential
  | finish sequential created computed =>
    have scanned := computed.scanned
    have next := cons.computed computed
    refine next.entered.leaves next.running (cons.body scanned before) ?_
    have env : s.currentThread ≠ 0 := by
      intro zero
      rw [current, zero] at created
      exact created cons.accounted.idle
    rw [computed.waitingQueue, scanned.readCount, scanned.writeCount, current,
      scanned.currentThread, (scanned.tcb _ env).env]
    exact .finish sequential
  | sleep enroll env first line seconds =>
    have printed := cons.print line
    exact (printed.threadSleep (cons.alive_of_enroll enroll) before seconds).step here
      (.sleep enroll env first) rfl rfl rfl env rfl
  | @readPark woken enroll env awake found busy =>
    obtain ⟨scanned, waiting⟩ := threadAwake_scanned found
    refine (cons.threadAwake found).parks (cons.body scanned before)
      (cons.alive_of_awake enroll found) (.inl ⟨rfl, rfl, busy⟩) ?_
    rw [scanned.writeCount] at busy
    rw [waiting, scanned.currentThread, scanned.readCount, scanned.writeCount]
    exact .readPark enroll env awake busy
  | @readTake woken enroll env found free =>
    obtain ⟨scanned, waiting⟩ := threadAwake_scanned found
    have taken := (cons.threadAwake found).readTake free
    refine (taken.print _).yields { cons.body scanned before with } ?_
    change s.LockStep (.yield 1) false woken.waitingQueue (woken.readCount + 1) woken.writeCount
    rw [scanned.writeCount] at free
    rw [waiting, scanned.readCount, scanned.writeCount]
    exact .readTake enroll env free
  | readResume enroll env =>
    exact (cons.print _).yields { here with } (.readResume enroll env)
  | release enroll env =>
    have released := cons.release (s.current.args.getD 0 0 * s.qP) (s.current.args.getD 1 0 * s.qS)
    exact (released.print _).yields { here with } (.release enroll env)
  | writePark enroll env busy =>
    exact cons.parks here (cons.alive_of_enroll enroll) (.inr ⟨rfl, rfl⟩)
      (.writePark enroll env busy)
  | writeTake enroll env unwritten unread =>
    exact ((cons.writeTake unread).print _).yields { here with }
      (.writeTake enroll env unwritten unread)
  | writeResume enroll env =>
    exact (cons.print _).yields { here with } (.writeResume enroll env)
  | leave enroll env last =>
    exact Entered.leaves (v := s.writeUnlock.print (.releaseWrite s.current.id))
      (cons.writeUnlock.print _) cons.running { here with } (.leave enroll env last)

end State
end NTUSP.Threads
