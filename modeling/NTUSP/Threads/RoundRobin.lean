import Mathlib.Data.List.Count
import NTUSP.Library.Fifo
import NTUSP.Threads.Conservation

/-!
# The scheduler is round robin

Where no thread is an `enroll`, nobody sleeps or waits for a lock. The scheduler then is the
dispatcher of a first-in-first-out list: the thread that a signal preempts goes to the tail,
one that exits is gone, and the head runs next. The list is what the ring of the ready queue
holds, however often its two indices have gone round.
-/

namespace NTUSP.Threads

open NTUSP.Library

namespace State

variable {n : Nat} {s t u : State} {pending : Option Signal}

/-- The dispatcher that the scheduler is. -/
def fifo (s : State) : Fifo Nat where
  running := if s.returned then none else some s.currentThread
  queue := s.readyQueue.contents

/-- How the turn of a `fibonacci` or `pm` thread ends, if it enters the scheduler: with its last
value it exits, and otherwise a pending signal preempts it. -/
def turnEnd (s : State) (pending : Option Signal) : Option TurnEnd :=
  if s.loopHead.current.i = s.loopHead.current.n then some .exited
  else pending.map fun _ => .preempted

/-- Nobody sleeps or waits, and a thread runs until the scheduler returns. -/
structure Rotates (n : Nat) (s : State) : Prop where
  consistent : s.Consistent n
  nobody : s.waitingQueue.contents = []
  awake : ∀ p, some p ∉ s.sleepingSet
  busy : s.returned = false → s.currentThread ≠ 0

/-! ## One pass -/

theorem sleepScan_awake (awake : ∀ p, some p ∉ s.sleepingSet) : s.sleepScan = s := by
  refine sleepScan_invariant (fun t => t = s) (fun t i same => ?_) rfl
  subst same
  rcases t.sleepScanStep_cases i with skipped | ⟨p, _, asleep, _⟩
  · exact skipped
  · exact absurd (List.mem_of_getElem? asleep) (awake p)

/-- With nobody asleep and nobody waiting the scans do nothing. -/
theorem scans_idle (valid : s.waitingQueue.Valid) (nobody : s.waitingQueue.contents = [])
    (awake : ∀ p, some p ∉ s.sleepingSet) : s.scans = s.createIdle := by
  have set : s.createIdle.sleepingSet = s.sleepingSet := by
    unfold createIdle
    split <;> rfl
  have waiting := createIdle_waitingQueue s
  unfold scans
  rw [sleepScan_awake (by rw [set]; exact awake), waitScan_of_nobody]
  rw [waiting]
  exact (TcbQueue.contents_eq_nil valid).mp nobody

/-- With nobody asleep the head of the ready queue runs next, and without one the scheduler
returns. -/
theorem dispatch_fifo (acc : s.Accounted n 0) (awake : ∀ p, some p ∉ s.sleepingSet)
    (before : s.returned = false) :
    s.dispatch.fifo = .take s.readyQueue.contents ∧ s.dispatch.sleepingSet = s.sleepingSet := by
  have nobody : (s.anySleeper fun _ => true) = false :=
    anySleeper_eq_false fun p member => absurd member (awake p)
  unfold dispatch
  rw [acc.dropSleeping]
  by_cases nonempty : s.readyQueue.head ≠ s.readyQueue.size
  · have first := TcbQueue.contents_advance acc.ready nonempty
    rw [if_neg nonempty]
    dsimp only
    rw [if_neg nonempty, first]
    refine ⟨?_, rfl⟩
    simp [fifo, before, Fifo.take]
  · rw [Classical.not_not] at nonempty
    have empty := (TcbQueue.contents_eq_nil acc.ready).mpr nonempty
    rw [if_pos nonempty, nobody, empty]
    refine ⟨?_, rfl⟩
    simp [fifo, Fifo.take, setTcb, empty]

/-- Who is ready behind the scans: a preempted thread has gone to the tail. -/
theorem settle_contents {status : Nat} (entered : s.Entered n (s.inHand status))
    (running : s.currentThread = 0 ∨ s.Alive n s.currentThread)
    (nobody : s.waitingQueue.contents = []) (awake : ∀ p, some p ∉ s.sleepingSet) :
    (s.scans.settle status).sleepingSet = s.sleepingSet ∧
      (s.scans.settle status).returned = s.returned ∧
      (s.scans.settle status).readyQueue.contents = s.readyQueue.contents ++
        if status = 1 ∧ s.currentThread ≠ 0 then [s.currentThread] else [] := by
  have same : s.createIdle.readyQueue = s.readyQueue ∧
      s.createIdle.sleepingSet = s.sleepingSet := by
    unfold createIdle
    split <;> exact ⟨rfl, rfl⟩
  have scanned := s.createIdle_scanned
  have acc := entered.toAccounted.createIdle
  rw [scans_idle entered.waiting nobody awake, ← same.1, ← same.2, ← scanned.returned]
  unfold settle
  by_cases signalled : status = 1
  · have id : s.createIdle.current.id = s.currentThread :=
      (acc.ids _).trans scanned.currentThread
    have hand : s.inHand status = s.currentThread := if_pos (.inl signalled)
    rw [if_pos signalled, id]
    by_cases idle : s.currentThread = 0
    · simp [idle]
    · have alive := running.resolve_left idle
      have living : s.createIdle.Alive n s.currentThread :=
        ⟨alive.1, alive.2.1, by rw [(scanned.tcb _ idle).freed]; exact alive.2.2⟩
      rw [hand] at acc
      have nowhere := acc.queued_hand
      have grown := acc.ready_contents living (by omega)
      rw [if_pos idle, if_pos ⟨signalled, idle⟩, scanned.currentThread]
      exact ⟨rfl, rfl, grown⟩
  · have nothing : (if status = 1 ∧ s.currentThread ≠ 0 then [s.currentThread] else []) = [] :=
      if_neg fun both => signalled both.1
    rw [if_neg signalled, nothing, List.append_nil]
    split <;> exact ⟨rfl, rfl, rfl⟩

/-- A pass is a turn of the dispatcher. -/
theorem scheduler_fifo (status : Nat) (entered : s.Entered n (s.inHand status))
    (running : s.currentThread = 0 ∨ s.Alive n s.currentThread)
    (nobody : s.waitingQueue.contents = []) (awake : ∀ p, some p ∉ s.sleepingSet)
    (before : s.returned = false) :
    (s.scheduler status).fifo = .take (s.readyQueue.contents ++
        if status = 1 ∧ s.currentThread ≠ 0 then [s.currentThread] else []) ∧
      (s.scheduler status).sleepingSet = s.sleepingSet ∧
      (s.scheduler status).waitingQueue.contents = [] := by
  obtain ⟨set, returned, contents⟩ := settle_contents entered running nobody awake
  obtain ⟨fifo, dispatched⟩ := dispatch_fifo (entered.settle running)
    (by rw [set]; exact awake) (returned.trans before)
  rw [contents] at fifo
  refine ⟨fifo, dispatched.trans set, ?_⟩
  rcases entered.scheduler_waiting running with ⟨same, _⟩ | ⟨_, _, empty⟩
  · rw [same, nobody]
  · exact empty

/-! ## One step -/

/-- The end of a turn, behind what it computed. -/
theorem finishTurn_printed {tcb computed : Tcb} (line : Print) (kept : s.current.Kept tcb)
    (further : tcb.Kept computed) (counter : computed.i = tcb.i) (bound : computed.n = tcb.n) :
    ∃ u, s.Computed u ∧ u.current.i = tcb.i ∧ u.current.n = tcb.n ∧
      ((s.setCurrent computed).print line).finishTurn pending = u.finishTurn pending := by
  have own : ((s.setCurrent computed).print line).current = computed :=
    s.setCurrent_current computed
  refine ⟨_, computed_print _ (kept.trans further) line, ?_, ?_, rfl⟩
  · rw [own, counter]
  · rw [own, bound]

/-- A `fibonacci` or `pm` thread computes its value and ends its turn. -/
theorem step_finishTurn (sequential : s.current.routine ≠ .enroll)
    (created : s.current.routine ≠ .idle) (steps : s.step pending = some t) :
    s.returned = false ∧ ∃ u, s.Computed u ∧ u.current.i = s.loopHead.current.i ∧
      u.current.n = s.loopHead.current.n ∧ t = u.finishTurn pending := by
  obtain ⟨tcb, kept, head⟩ := s.loopHead_kept
  unfold step at steps
  split at steps
  · cases steps
  rename_i running
  refine ⟨Bool.not_eq_true _ ▸ running, ?_⟩
  rw [head] at steps ⊢
  rw [setCurrent_current]
  split at steps
  · rename_i idle
    exact absurd idle created
  · have next := Option.some.inj steps
    subst next
    unfold fibonacciTurn fibonacciRound
    simp only [setCurrent_current, setCurrent_setCurrent]
    apply finishTurn_printed _ kept
    · split <;> exact ⟨rfl, rfl, rfl, rfl, rfl, rfl⟩
    all_goals split <;> rfl
  · have next := Option.some.inj steps
    subst next
    unfold pmTurn pmRound
    simp only [setCurrent_current, setCurrent_setCurrent]
    apply finishTurn_printed _ kept
    · split <;> exact ⟨rfl, rfl, rfl, rfl, rfl, rfl⟩
    all_goals split <;> rfl
  · rename_i enrolls
    exact absurd enrolls sequential

theorem Computed.fifo (computed : s.Computed t) : t.fifo = s.fifo ∧ t.returned = s.returned ∧
    t.currentThread = s.currentThread ∧ t.readyQueue = s.readyQueue ∧
      t.waitingQueue = s.waitingQueue ∧ t.sleepingSet = s.sleepingSet := by
  obtain ⟨tcb, out, _, same⟩ := computed
  subst same
  exact ⟨rfl, rfl, rfl, rfl, rfl, rfl⟩

/-- A thread that is not idle while nobody sleeps is one of those that were ready. -/
theorem busy_of_take {ready : List Nat} (fifo : t.fifo = .take ready) (created : 0 ∉ ready)
    (going : t.returned = false) : t.currentThread ≠ 0 := by
  intro idle
  have head := congrArg Fifo.running fifo
  simp only [State.fifo, going, idle, Bool.false_eq_true, if_false, Fifo.take] at head
  exact created (List.mem_of_mem_head? head.symm)

variable (pending) in
/-- The end of a turn is one of the dispatcher's turns, or the thread goes on. -/
theorem Rotates.finishTurn (rotates : s.Rotates n) (going : s.returned = false) :
    (s.finishTurn pending).fifo = (if s.current.i = s.current.n then s.fifo.next .exited
      else if pending.isSome then s.fifo.next .preempted else s.fifo) ∧
    (s.finishTurn pending).waitingQueue.contents = [] ∧
    (∀ p, some p ∉ (s.finishTurn pending).sleepingSet) ∧
    ((s.finishTurn pending).returned = false → (s.finishTurn pending).currentThread ≠ 0) := by
  have cons := rotates.consistent
  have busy := rotates.busy going
  have ready : 0 ∉ s.readyQueue.contents := fun member =>
    Accounted.created_of_alive (cons.accounted.alive_of_ready member).1 rfl
  have here : s.fifo = ⟨some s.currentThread, s.readyQueue.contents⟩ := by simp [State.fifo, going]
  unfold State.finishTurn
  rw [here]
  by_cases last : s.current.i = s.current.n
  · rw [if_pos last, if_pos last]
    obtain ⟨fifo, set, waiting⟩ := scheduler_fifo (s := s.print (.exit s.current.id)) 3
      (cons.entered.print (.exit s.current.id)) cons.running rotates.nobody rotates.awake going
    rw [if_neg fun both => absurd both.1 (by decide), List.append_nil] at fifo
    unfold threadExit
    refine ⟨fifo, waiting, fun p => ?_, busy_of_take fifo ready⟩
    rw [set]
    exact rotates.awake p
  rw [if_neg last, if_neg last]
  cases pending with
  | none => exact ⟨here, rotates.nobody, rotates.awake, rotates.busy⟩
  | some signal =>
    have saved : (s.setCurrent { s.current with env := .yield 0 }).Consistent n :=
      cons.setCurrent rfl rfl rfl
    obtain ⟨fifo, set, waiting⟩ := scheduler_fifo
      (s := (s.setCurrent { s.current with env := .yield 0 }).print (.caught signal)) 1
      (saved.print (.caught signal)).entered saved.running rotates.nobody rotates.awake going
    rw [if_pos ⟨rfl, busy⟩] at fifo
    unfold threadYield
    dsimp only
    refine ⟨fifo, waiting, fun p => ?_, busy_of_take fifo fun member => ?_⟩
    · rw [set]
      exact rotates.awake p
    · rcases List.mem_append.mp member with queued | current
      · exact ready queued
      · exact busy (List.mem_singleton.mp current).symm

/-- A step is a turn of the dispatcher if it enters the scheduler, and changes nothing otherwise. -/
theorem Rotates.step (rotates : s.Rotates n) (steps : s.step pending = some t)
    (loops : s.current.routine ≠ .enroll ∧ s.current.routine ≠ .idle) :
    t.Rotates n ∧ t.fifo = (s.turnEnd pending).elim s.fifo s.fifo.next := by
  obtain ⟨going, u, computed, counter, bound, rfl⟩ := step_finishTurn loops.1 loops.2 steps
  obtain ⟨fifo, returned, current, _, waiting, set⟩ := computed.fifo
  have here : u.Rotates n := by
    refine ⟨rotates.consistent.computed computed, ?_, ?_, ?_⟩
    · rw [waiting]
      exact rotates.nobody
    · rw [set]
      exact rotates.awake
    · rw [returned, current]
      exact rotates.busy
  obtain ⟨turn, nobody, awake, busy⟩ := here.finishTurn pending (returned.trans going)
  obtain ⟨_, _, _, _, moved⟩ := rotates.consistent.step steps
  refine ⟨⟨moved.consistent, nobody, awake, busy⟩, turn.trans ?_⟩
  unfold turnEnd
  rw [counter, bound, fifo]
  split
  · rfl
  · cases pending <;> rfl

/-! ## The start -/

theorem spawnThread_sleepingSet (s : State) (id : Nat) (specs : List Spec) :
    (Threads.spawnThread s id specs).sleepingSet = s.sleepingSet := by
  induction specs generalizing s id with
  | nil => rfl
  | cons spec rest ih => exact ih (s.threadSetup spec.routine id spec.args) (id + 1)

/-- The threads are ready in the order of the command line. -/
theorem Spawned.contents {specs : List Spec} {j : Nat} (rest : List Spec)
    (spawned : s.Spawned specs j) (few : j + rest.length < THREAD_MAX)
    (named : ∀ spec ∈ rest, spec ∈ specs) :
    (Threads.spawnThread s (j + 1) rest).readyQueue.contents =
      s.readyQueue.contents ++ List.range' (j + 1) rest.length := by
  induction rest generalizing s j with
  | nil => simp [Threads.spawnThread]
  | cons spec rest ih =>
    rw [List.length_cons] at few
    have next := ih (spawned.threadSetup (by omega) (named spec List.mem_cons_self)) (by omega)
      fun other member => named other (List.mem_cons_of_mem _ member)
    refine next.trans ?_
    rw [spawned.threadSetup_contents (by omega), List.append_assoc, List.length_cons,
      List.range'_succ, List.singleton_append]

/-- The first pass gives the turn to the first thread. -/
theorem start_rotates (timeSlice qP qS : Int) {specs : List Spec}
    (few : specs.length < THREAD_MAX) :
    (start timeSlice qP qS specs).Rotates specs.length ∧
      (start timeSlice qP qS specs).fifo = .take (List.range' 1 specs.length) := by
  have first := blank_spawned timeSlice qP qS specs
  have spawned := spawned timeSlice qP qS few
  have ready := first.contents specs (by omega) fun spec member => member
  have nobody : (blank timeSlice qP qS).readyQueue.contents = [] :=
    (TcbQueue.contents_eq_nil TcbQueue.empty_valid).mpr rfl
  have awake : ∀ p, some p ∉ (Threads.spawnThread (blank timeSlice qP qS) 1 specs).sleepingSet := by
    intro p
    rw [spawnThread_sleepingSet]
    simp [Threads.blank]
  obtain ⟨fifo, set, waiting⟩ := scheduler_fifo 0 spawned.entered (.inl spawned.idleRuns)
    spawned.nobody awake spawned.running
  rw [if_neg fun both => absurd both.1 (by decide), List.append_nil] at fifo
  rw [nobody, List.nil_append, Nat.zero_add] at ready
  rw [ready] at fifo
  refine ⟨⟨(start_after timeSlice qP qS few).consistent, waiting, fun p => ?_, ?_⟩, fifo⟩
  · unfold start
    rw [set]
    exact awake p
  · exact busy_of_take fifo (by simp)

/-! ## Runs -/

/-- The thread that the scheduler has dispatched, if it has not returned. -/
def dispatched (s : State) : Option Nat := s.fifo.running

/-- Every unfinished thread but the running one is ready, once. -/
theorem Rotates.count_ready {p q : Nat} (rotates : u.Rotates n)
    (mine : u.dispatched = some p) (other : q ≠ p) (alive : u.Alive n q) :
    p ∉ u.readyQueue.contents ∧ u.readyQueue.contents.count q = 1 := by
  have current : u.currentThread = p := by
    unfold State.dispatched fifo at mine
    dsimp only at mine
    split at mine
    · cases mine
    · exact Option.some.inj mine
  have cons := rotates.consistent
  constructor
  · intro member
    exact (cons.accounted.alive_of_ready member).2 current.symm
  · have once := cons.occurrences_eq_one alive
    unfold occurrences queued at once
    rw [if_neg (by omega), rotates.nobody, List.count_nil,
      List.count_eq_zero.mpr (rotates.awake q)] at once
    omega

/-- How the step enters the scheduler, if it does, and the state it leads to. -/
def dispatches (s : State) (pending : Option Signal) : List (TurnEnd × State) :=
  match s.turnEnd pending with
  | none => []
  | some turn => (s.step pending).toList.map fun t => (turn, t)

end State

open State

variable {timeSlice qP qS : Int} {specs : List Spec} {s : State}

/-- The program with its passes through the scheduler. -/
def dispatching (timeSlice qP qS : Int) (specs : List Spec) :
    Machine (State × List (TurnEnd × State)) (Option Signal) :=
  (machine timeSlice qP qS specs).recording dispatches

theorem dispatching_initial (first : s = start timeSlice qP qS specs) :
    (dispatching timeSlice qP qS specs).Initial (s, []) := ⟨first, rfl⟩

/-- The abstract dispatcher of `n` threads. -/
def rotation (n : Nat) : Fifo Nat := .take (List.range' 1 n)

/-- The states behind the passes of a run. -/
def passes (timeSlice qP qS : Int) (specs : List Spec) (history : List (TurnEnd × State)) :
    List State :=
  start timeSlice qP qS specs :: history.map Prod.snd

/-- A run so far: `turns` are the passes, and `seen` the states behind them. -/
structure Follows (n : Nat) (s : State) (seen : List State) (turns : List TurnEnd) : Prop where
  here : s.Rotates n
  rotates : ∀ u ∈ seen, u.Rotates n
  states : seen.map fifo = rotation n :: (rotation n).states turns
  last : (seen.map fifo).getLast? = some s.fifo

theorem follows_start {n : Nat} (rotates : s.Rotates n) (fifo : s.fifo = rotation n) :
    Follows n s [s] [] where
  here := rotates
  rotates u member := by
    rw [List.mem_singleton.mp member]
    exact rotates
  states := by simp [fifo, Fifo.states]
  last := rfl

/-- A step goes on with a pass, or without one. -/
theorem Follows.step {n : Nat} {t : State} {pending : Option Signal} {seen : List State}
    {turns : List TurnEnd} (follows : Follows n s seen turns) (steps : s.step pending = some t)
    (loops : s.current.routine ≠ .enroll ∧ s.current.routine ≠ .idle) :
    Follows n t (seen ++ (dispatches s pending).map Prod.snd)
      (turns ++ (dispatches s pending).map Prod.fst) := by
  obtain ⟨here, rotates, states, last⟩ := follows
  obtain ⟨there, moved⟩ := here.step steps loops
  unfold dispatches
  cases enters : s.turnEnd pending with
  | none =>
    rw [enters] at moved
    simp only [List.map_nil, List.append_nil]
    exact ⟨there, rotates, states, by rw [last, moved]; rfl⟩
  | some turn =>
    rw [enters] at moved
    simp only [steps, Option.toList_some, List.map_cons, List.map_nil]
    rw [states] at last
    refine ⟨there, fun u member => ?_, ?_, ?_⟩
    · rcases List.mem_append.mp member with old | new
      · exact rotates u old
      · rw [List.mem_singleton.mp new]
        exact there
    · rw [List.map_append, states, Fifo.states_concat last, List.map_singleton, moved]
      rfl
    · simp

/-- The scheduler passes through the states of the abstract dispatcher. -/
theorem reach_follows {history : List (TurnEnd × State)} (few : specs.length < THREAD_MAX)
    (loops : ∀ spec ∈ specs, spec.routine ≠ .enroll)
    (reached : (dispatching timeSlice qP qS specs).Reach
      (fun state => Machine.anyStep state.1) (s, history)) :
    Follows specs.length s (passes timeSlice qP qS specs history) (history.map Prod.fst) := by
  refine reached.invariant (fun state => Follows specs.length state.1
    (passes timeSlice qP qS specs state.2) (state.2.map Prod.fst)) ?_ ?_
  · rintro ⟨state, history⟩ ⟨initial, none⟩
    have same : state = start timeSlice qP qS specs := initial
    have empty : history = [] := none
    obtain ⟨rotates, fifo⟩ := start_rotates timeSlice qP qS few
    dsimp only
    rw [same, empty]
    exact follows_start rotates fifo
  · rintro ⟨state, history⟩ pending ⟨next, history'⟩ prior follows _ transition
    obtain ⟨steps, grown⟩ := Machine.recording_step transition
    have steps : state.step pending = some next := steps
    have grown : history' = history ++ dispatches state pending := grown
    dsimp only at follows ⊢
    have going := (step_cases steps).1
    have created := follows.here.busy going
    have alive := follows.here.consistent.running.resolve_left created
    obtain ⟨spec, named, routine, _⟩ := reach_loaded few prior.forget alive.1 alive.2.1
    have later := follows.step steps ⟨?_, ?_⟩
    · rw [grown, List.map_append]
      unfold passes at later ⊢
      rw [List.map_append, ← List.cons_append]
      exact later
    · rw [State.current, routine]
      exact loops spec named
    · rw [State.current, routine]
      cases spec <;> simp [Spec.routine]

/-- Round robin: the scheduler dispatches the threads in the order of the abstract list, and
between two dispatches of a thread every other one that has not finished is dispatched once. -/
theorem round_robin {history : List (TurnEnd × State)} (few : specs.length < THREAD_MAX)
    (loops : ∀ spec ∈ specs, spec.routine ≠ .enroll)
    (reached : (dispatching timeSlice qP qS specs).Reach
      (fun state => Machine.anyStep state.1) (s, history)) :
    (passes timeSlice qP qS specs history).map dispatched =
        (rotation specs.length :: (rotation specs.length).states (history.map Prod.fst)).map
          Fifo.running ∧
      ∀ before u mid v after p, passes timeSlice qP qS specs history =
          before ++ u :: (mid ++ v :: after) →
        u.dispatched = some p → v.dispatched = some p → (∀ t ∈ mid, t.dispatched ≠ some p) →
        ∀ q, q ≠ p → u.Alive specs.length q → (mid.map dispatched).count (some q) = 1 := by
  have follows := reach_follows few loops reached
  constructor
  · rw [← follows.states, List.map_map]
    rfl
  · intro before u mid v after p split mine again first q other alive
    obtain ⟨absent, once⟩ := (follows.rotates u (by simp [split])).count_ready mine other alive
    have whole := follows.states
    rw [split, List.map_append, List.map_cons, List.map_append, List.map_cons] at whole
    obtain ⟨rest, abstract⟩ := Fifo.states_of_split whole.symm
    have between := Fifo.running_between mine absent abstract.symm again fun state member => by
      obtain ⟨t, there, rfl⟩ := List.mem_map.mp member
      exact first t there
    have order : mid.map dispatched = u.readyQueue.contents.map some := by
      rw [List.map_map] at between
      exact between
    rw [order, List.count_map_of_injective _ _ fun _ _ same => Option.some.inj same]
    exact once

/-- Two threads that are preempted after every value take turns. -/
theorem round_robin_preempted :
    ∃ s history, (dispatching 1 0 0 [.fibonacci 3, .pm 2]).Reach
        (fun state => Machine.anyStep state.1) (s, history) ∧ s.returned = true ∧
      (passes 1 0 0 [.fibonacci 3, .pm 2] history).map dispatched =
        [some 1, some 2, some 1, some 2, some 1, none] ∧
      (passes 1 0 0 [.fibonacci 3, .pm 2] history).map dispatched =
        (rotation 2 :: (rotation 2).states (history.map Prod.fst)).map Fifo.running := by
  have ran : ((dispatching 1 0 0 [.fibonacci 3, .pm 2]).exec (fun _ _ => true)
      (start 1 0 0 [.fibonacci 3, .pm 2], [])
      [some .SIGTSTP, some .SIGALRM, some .SIGTSTP, none, none]).map
        (fun state => (state.1.returned,
          (passes 1 0 0 [.fibonacci 3, .pm 2] state.2).map dispatched)) =
      some (true, [some 1, some 2, some 1, some 2, some 1, none]) := by
    decide +kernel
  obtain ⟨⟨s, history⟩, runs, result⟩ := Option.map_eq_some_iff.mp ran
  obtain ⟨returned, order⟩ := Prod.mk.inj result
  have reached : (dispatching 1 0 0 [.fibonacci 3, .pm 2]).Reach
      (fun state => Machine.anyStep state.1) (s, history) :=
    (Machine.Reach.initial (dispatching_initial rfl)).exec (fun _ _ _ => trivial) runs
  exact ⟨s, history, reached, returned, order, (round_robin (by decide) (by decide) reached).1⟩

end NTUSP.Threads
