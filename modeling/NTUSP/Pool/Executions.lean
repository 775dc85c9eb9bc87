import NTUSP.Pool.Shutdown

/-!
# Who executes which item

A history lists the dequeues, the cells computed and the frees of the workers. For each
item it is a prefix of one worker's whole execution of it, and complete once the item is
no longer with that worker. Behind the last join nothing is left in the ring or with a
worker.
-/

namespace NTUSP.Pool

open NTUSP.Library

/-- What a worker does with an item: lines 18 to 20, a turn of the loop of line 23, line 28. -/
inductive Event where
  | take (worker : Nat) (work : Work)
  | cell (worker : Nat) (work : Work) (k : Nat)
  | free (worker : Nat) (work : Work)

/-- The item of an event. -/
def Event.work : Event → Work
  | .take _ work | .cell _ work _ | .free _ work => work

/-- What worker `i` does with an item at a program counter. -/
def State.workerEvents (s : State) (i : Nat) : WorkerPc → List Event
  | .test =>
      if s.queueSize = 0 then []
      else
        match s.workQueue[s.front]? with
        | some (some work) => [.take i work]
        | _ => []
  | .compute work k => if k < work.end_ then [.cell i work k] else [.free i work]
  | _ => []

/-- What a step does with an item. -/
def State.events (s : State) : Action → List Event
  | .worker i _ => s.workers[i]?.elim [] (s.workerEvents i)
  | _ => []

/-- The items of the dequeues in a history, in order. -/
def taken (history : List Event) : List Work :=
  history.filterMap fun
    | .take _ work => some work
    | _ => none

/-- The part of a history about the item at an address. -/
def about (pointer : Nat) (history : List Event) : List Event :=
  history.filter fun event => decide (event.work.pointer = pointer)

/-- Worker `i` has taken the item and computed its first `count` cells. -/
def Work.execution (work : Work) (i count : Nat) : List Event :=
  .take i work :: (List.range' work.start count).map (.cell i work)

/-- Worker `i` takes the item, computes each of its cells once, in order, and frees it. -/
def Work.complete (work : Work) (i : Nat) : List Event :=
  work.execution i (work.end_ - work.start) ++ [.free i work]

/-- The item a worker has, and the next cell of it. -/
def WorkerPc.started : WorkerPc → Option (Work × Nat)
  | .unlock work => some (work, work.start)
  | .compute work k => some (work, k)
  | _ => none

def State.started (s : State) (i : Nat) : Option (Work × Nat) :=
  s.workers[i]?.bind WorkerPc.started

/-- The history agrees with the ring and the workers. -/
structure Recorded (s : State) (history : List Event) : Prop where
  order : taken history = s.dequeued
  known : ∀ event ∈ history, event.work ∈ s.dequeued
  running : ∀ i work k, s.started i = some (work, k) → work ∈ s.dequeued ∧ work.start ≤ k ∧
    (k = work.start ∨ k ≤ work.end_) ∧ about work.pointer history = work.execution i (k - work.start)
  settled : ∀ work ∈ s.dequeued, (∃ i k, s.started i = some (work, k)) ∨
    ∃ i, about work.pointer history = work.complete i

section Started

variable {s t : State} {i : Nat} {pc : WorkerPc} {woken : Option Thread}

theorem started_setWorker (found : s.workers[i]? = some pc) (next : WorkerPc) (j : Nat) :
    (s.setWorker i next).started j = if j = i then next.started else s.started j := by
  unfold State.started State.setWorker
  by_cases same : j = i
  · subst same
    simp [Counting.getElem?_set_of_get found]
  · simp [Counting.getElem?_set_of_get found, same, Ne.symm same]

/-- A program counter with the same item changes nothing here. -/
theorem started_setWorker_same (found : s.workers[i]? = some pc) (next : WorkerPc)
    (same : next.started = pc.started) (j : Nat) : (s.setWorker i next).started j = s.started j := by
  rw [started_setWorker found]
  split
  · rename_i here
    rw [here, same]
    simp [State.started, found]
  · rfl

theorem started_signal (signalled : s.signal woken = some t) (j : Nat) :
    t.started j = s.started j := by
  rcases State.signal_cases signalled with ⟨_, _, rfl⟩ | ⟨_, _, rfl⟩ | ⟨k, _, blocked, rfl⟩
  · rfl
  · rfl
  · exact started_setWorker_same blocked .wake rfl j

theorem started_broadcast (s : State) (j : Nat) : s.broadcast.started j = s.started j := by
  simp only [State.started, State.broadcast, List.getElem?_map]
  cases s.workers[j]? with
  | none => rfl
  | some pc => cases pc <;> rfl

end Started

theorem about_append (pointer : Nat) (history more : List Event) :
    about pointer (history ++ more) = about pointer history ++ about pointer more :=
  List.filter_append ..

theorem about_own (event : Event) : about event.work.pointer [event] = [event] := by
  simp [about]

theorem about_other {pointer : Nat} {event : Event} (other : event.work.pointer ≠ pointer) :
    about pointer [event] = [] := by
  simp [about, other]

/-- Only its own worker executes an item. -/
theorem execution_worker {work work' : Work} {i i' count count' : Nat}
    (same : work.execution i count = work'.execution i' count') : i = i' := by
  have first := (List.cons.inj same).1
  exact (Event.take.inj first).1

/-- A running execution has not come to the free. -/
theorem execution_ne_complete {work work' : Work} {i i' count : Nat} :
    work.execution i count ≠ work'.complete i' := by
  intro same
  have member : Event.free i' work' ∈ work.execution i count := by
    rw [same]
    simp [Work.complete]
  simp [Work.execution] at member

namespace Recorded

variable {s t : State} {history : List Event} {i k : Nat} {work : Work}

theorem init (numThreads : Nat) : Recorded (tpoolInit numThreads) [] where
  order := rfl
  known _ member := (List.not_mem_nil member).elim
  running i work k started := by
    obtain ⟨pc, found, same⟩ := Option.bind_eq_some_iff.mp started
    rw [List.eq_of_mem_replicate (List.mem_of_getElem? found)] at same
    cases same
  settled _ member := (List.not_mem_nil member).elim

/-- Steps that give no item to a worker and take none from one. -/
theorem quiet (recorded : Recorded s history) (dequeued : t.dequeued = s.dequeued)
    (started : ∀ j, t.started j = s.started j) : Recorded t (history ++ []) where
  order := by rw [List.append_nil, dequeued, recorded.order]
  known := by
    rw [List.append_nil, dequeued]
    exact recorded.known
  running j work k begun := by
    rw [started] at begun
    rw [List.append_nil, dequeued]
    exact recorded.running j work k begun
  settled work member := by
    simp only [started, List.append_nil]
    exact recorded.settled work (dequeued ▸ member)

/-- A worker takes an item that was not dequeued before. -/
theorem take (recorded : Recorded s history) (fresh : ∀ old ∈ s.dequeued, old.pointer ≠ work.pointer)
    (dequeued : t.dequeued = s.dequeued ++ [work]) (idle : s.started i = none)
    (started : ∀ j, t.started j = if j = i then some (work, work.start) else s.started j) :
    Recorded t (history ++ [.take i work]) := by
  have before : about work.pointer history = [] := by
    refine List.filter_eq_nil_iff.mpr fun event member => ?_
    simpa using fresh _ (recorded.known event member)
  have others : ∀ old ∈ s.dequeued, about old.pointer (history ++ [.take i work]) =
      about old.pointer history := by
    intro old member
    have other : (Event.take i work).work.pointer ≠ old.pointer := (fresh old member).symm
    rw [about_append, about_other other, List.append_nil]
  refine ⟨?_, fun event member => ?_, fun j other k begun => ?_, fun other member => ?_⟩
  · simp only [taken, List.filterMap_append] at *
    rw [dequeued, ← recorded.order]
    rfl
  · rw [dequeued]
    rcases List.mem_append.mp member with old | new
    · exact List.mem_append_left _ (recorded.known event old)
    · rw [List.mem_singleton.mp new]
      exact List.mem_append_right _ (List.mem_singleton_self work)
  · rw [started] at begun
    split at begun
    · rename_i here
      cases begun
      subst here
      refine ⟨by simp [dequeued], Nat.le_refl _, .inl rfl, ?_⟩
      rw [about_append, before]
      exact (about_own (.take j work)).trans (by simp [Work.execution])
    · obtain ⟨old, lower, upper, execution⟩ := recorded.running j other k begun
      refine ⟨by simp [dequeued, old], lower, upper, ?_⟩
      rw [others other old, execution]
  · rw [dequeued] at member
    rcases List.mem_append.mp member with old | new
    · rw [others other old]
      refine (recorded.settled other old).imp ?_ id
      rintro ⟨j, k, begun⟩
      have apart : j ≠ i := by
        rintro rfl
        rw [idle] at begun
        cases begun
      exact ⟨j, k, by rw [started, if_neg apart, begun]⟩
    · obtain rfl := List.mem_singleton.mp new
      exact .inl ⟨i, other.start, by rw [started, if_pos rfl]⟩

/-- No other worker's item is the one of worker `i`. -/
theorem apart (recorded : Recorded s history) (mine : s.started i = some (work, k)) {j k' : Nat}
    {work' : Work} (other : j ≠ i) (begun : s.started j = some (work', k')) :
    work.pointer ≠ work'.pointer := by
  intro same
  have own := (recorded.running i work k mine).2.2.2
  have theirs := (recorded.running j work' k' begun).2.2.2
  rw [← same, own] at theirs
  exact other (execution_worker theirs).symm

/-- A worker goes on with its item: it computes a cell of it, or frees it. -/
theorem goOn (recorded : Recorded s history) (mine : s.started i = some (work, k))
    {next : Option (Work × Nat)} (started : ∀ j, t.started j = if j = i then next else s.started j)
    (dequeued : t.dequeued = s.dequeued) {event : Event} (own : event.work = work)
    (noTake : taken [event] = [])
    (after : (event = .cell i work k ∧ next = some (work, k + 1) ∧ k < work.end_) ∨
      (event = .free i work ∧ next = none ∧ work.end_ ≤ k)) :
    Recorded t (history ++ [event]) := by
  obtain ⟨member, lower, upper, execution⟩ := recorded.running i work k mine
  have mineAfter : about work.pointer (history ++ [event]) =
      work.execution i (k - work.start) ++ [event] := by
    rw [about_append, execution]
    exact congrArg _ (own ▸ about_own event)
  have others : ∀ pointer, work.pointer ≠ pointer →
      about pointer (history ++ [event]) = about pointer history := by
    intro pointer other
    rw [about_append, about_other (own ▸ other), List.append_nil]
  refine ⟨?_, fun old known => ?_, fun j other k' begun => ?_, fun other known => ?_⟩
  · have order := recorded.order
    simp only [taken, List.filterMap_append] at order noTake ⊢
    rw [noTake, List.append_nil, order, dequeued]
  · rw [dequeued]
    rcases List.mem_append.mp known with old | new
    · exact recorded.known _ old
    · rw [List.mem_singleton.mp new, own]
      exact member
  · rw [started] at begun
    rw [dequeued]
    split at begun
    · rename_i here
      subst here
      rcases after with ⟨computed, goes, inside⟩ | ⟨_, gone, _⟩
      · rw [goes] at begun
        obtain ⟨rfl, rfl⟩ := Prod.mk.inj (Option.some.inj begun)
        refine ⟨member, Nat.le_succ_of_le lower, .inr inside, ?_⟩
        have count : k + 1 - work.start = (k - work.start) + 1 := by omega
        have last : work.start + (k - work.start) = k := by omega
        rw [mineAfter, computed, Work.execution, Work.execution, count, List.range'_concat,
          List.map_append, List.cons_append, Nat.one_mul, last]
        rfl
      · rw [gone] at begun
        cases begun
    · rename_i elsewhere
      obtain ⟨old, lower', upper', execution'⟩ := recorded.running j other k' begun
      refine ⟨old, lower', upper', ?_⟩
      rw [others _ (recorded.apart mine elsewhere begun), execution']
  · rw [dequeued] at known
    rcases recorded.settled other known with ⟨j, k', begun⟩ | ⟨j, complete⟩
    · by_cases here : j = i
      · subst here
        obtain ⟨rfl, rfl⟩ := Prod.mk.inj (Option.some.inj (mine.symm.trans begun))
        rcases after with ⟨_, goes, _⟩ | ⟨freed, gone, outside⟩
        · exact .inl ⟨j, k + 1, by rw [started, if_pos rfl, goes]⟩
        · refine .inr ⟨j, ?_⟩
          have count : k - work.start = work.end_ - work.start := by omega
          rw [mineAfter, freed, count]
          rfl
      · exact .inl ⟨j, k', by rw [started, if_neg here, begun]⟩
    · refine .inr ⟨j, ?_⟩
      have other : work.pointer ≠ other.pointer := by
        intro same
        rw [← same, execution] at complete
        exact execution_ne_complete complete
      rw [others _ other, complete]

end Recorded

section Step

variable {n : Nat} {s t : State} {i : Nat} {pc : WorkerPc} {woken : Option Thread}
  {history : List Event}

/-- No statement of main is about an item with a worker. -/
theorem MainStep.started {m : MainPc} (stepped : MainStep n s woken m t) :
    t.dequeued = s.dequeued ∧ ∀ j, t.started j = s.started j := by
  cases stepped with
  | control | add => exact ⟨rfl, fun _ => rfl⟩
  | put signalled =>
      have frame := congrArg State.dequeued (signal_frame signalled)
      have same := started_signal signalled
      exact ⟨frame, same⟩
  | terminate => exact ⟨rfl, started_broadcast { s with terminate := true }⟩

/-- What a statement of a worker adds to the history keeps it in agreement. -/
theorem Recorded.workerStep (recorded : Recorded s history) (queueOk : QueueOk s)
    (found : s.workers[i]? = some pc) (stepped : WorkerStep s i woken pc t) :
    Recorded t (history ++ s.events (.worker i woken)) := by
  have mine : s.started i = pc.started := by simp [State.started, found]
  simp only [State.events, found, Option.elim_some]
  cases stepped with
  | @control _ next lock move =>
      have written : ∀ j, (({ s with lock := lock } : State).setWorker i next).started j =
          if j = i then next.started else s.started j :=
        started_setWorker (s := { s with lock := lock }) found next
      have unmoved : next.started = pc.started →
          ∀ j, (({ s with lock := lock } : State).setWorker i next).started j = s.started j :=
        fun same => started_setWorker_same (s := { s with lock := lock }) found next same
      cases move with
      | block empty | leave empty =>
          rw [State.workerEvents, if_pos empty]
          exact recorded.quiet rfl (unmoved rfl)
      | @finish work k outside =>
          rw [State.workerEvents, if_neg (Nat.not_lt.mpr outside)]
          exact recorded.goOn mine written rfl rfl rfl (.inr ⟨rfl, rfl, outside⟩)
      | lock | relockWait | exit | unlock | relock | release =>
          exact recorded.quiet rfl (unmoved rfl)
  | @take work nonempty slot =>
      rw [State.workerEvents, if_neg nonempty, slot]
      refine recorded.take (fun old member same => ?_) rfl mine
        (started_setWorker (s := s.takeWork work) found (.unlock work))
      -- The dequeued items and the one at `front` are different positions of `enqueued`.
      have pointers := queueOk.pointers
      rw [queueOk.history, queueOk.contents_take nonempty slot, List.map_append,
        List.map_cons] at pointers
      have distinct : (s.dequeued.map Work.pointer ++ work.pointer ::
          (s.takeWork work).contents.map Work.pointer).Nodup := by
        rw [pointers]
        exact List.nodup_range
      have disjoint := (List.nodup_append.mp distinct).2.2
      exact disjoint _ (List.mem_map_of_mem member) _ List.mem_cons_self same
  | @cell work k inside =>
      rw [State.workerEvents, if_pos inside]
      have written := started_setWorker (s := s.writeCell work.c (k / work.n) (k % work.n)
        (calculation work.n (work.a (k / work.n)) (work.b (k % work.n)))) found
          (.compute work (k + 1))
      exact recorded.goOn mine written rfl rfl rfl (.inl ⟨rfl, rfl, inside⟩)
  | @countLast signalledState last signalled =>
      have frame := congrArg State.dequeued (signal_frame signalled)
      refine recorded.quiet frame fun j => ?_
      have same := started_setWorker_same (signal_worker signalled found rfl) .release rfl j
      exact same.trans (started_signal signalled j)
  | countMore more =>
      exact recorded.quiet rfl (started_setWorker_same
        (s := { s with completed := s.completed + 1 }) found .release rfl)

end Step

variable {numThreads n : Nat}

/-- The pool with the history of its workers. -/
def recordedPool (numThreads n : Nat) : Machine (State × List Event) Action :=
  (machine numThreads n).recording State.events

theorem reach_recorded {state : State × List Event}
    (reached : (recordedPool numThreads n).Reach (fun state => keepsRoom state.1) state) :
    Recorded state.1 state.2 := by
  refine reached.invariant (fun state => Recorded state.1 state.2) ?_ ?_
  · rintro ⟨s, history⟩ ⟨rfl, rfl⟩
    exact .init numThreads
  · intro state action next prior recorded allowed transition
    obtain ⟨stepped, grown⟩ := Machine.recording_step transition
    rw [grown]
    have queueOk := reach_queueOk prior.forget
    rcases State.step_cases stepped with ⟨call, rfl, ready, entered⟩ | ⟨woken, rfl, statement⟩ |
      ⟨i, woken, pc, rfl, found, statement⟩
    · generalize next.1 = t at entered ⊢
      cases entered <;> exact recorded.quiet rfl fun _ => rfl
    · obtain ⟨dequeued, started⟩ := statement.started
      exact recorded.quiet dequeued started
    · exact recorded.workerStep queueOk found statement

/-- What a history says about the items of a state: they are dequeued in the order they were
enqueued in, each has its own address, and one worker executes each of them at most once. -/
structure ExactlyOnce (s : State) (history : List Event) : Prop where
  order : s.enqueued = taken history ++ s.contents
  distinct : (s.enqueued.map Work.pointer).Nodup
  once : ∀ work ∈ s.enqueued, ∃ i, about work.pointer history <+: work.complete i

theorem Recorded.exactlyOnce {s : State} {history : List Event} (recorded : Recorded s history)
    (queueOk : QueueOk s) : ExactlyOnce s history where
  order := by rw [recorded.order, queueOk.history]
  distinct := by
    rw [queueOk.pointers]
    exact List.nodup_range
  once work member := by
    rw [queueOk.history] at member
    rcases List.mem_append.mp member with out | queued
    · rcases recorded.settled work out with ⟨i, k, begun⟩ | ⟨i, complete⟩
      · obtain ⟨_, lower, upper, execution⟩ := recorded.running i work k begun
        refine ⟨i, ?_⟩
        have fewer : k - work.start ≤ work.end_ - work.start := by omega
        obtain ⟨more, total⟩ := Nat.exists_eq_add_of_le fewer
        rw [execution, Work.complete, total, Work.execution, Work.execution,
          ← List.range'_append_1, List.map_append, ← List.cons_append, List.append_assoc]
        exact List.prefix_append ..
      · exact ⟨i, complete ▸ List.prefix_rfl⟩
    · -- An item still in the ring is not in the history.
      have untouched : about work.pointer history = [] := by
        refine List.filter_eq_nil_iff.mpr fun event known => ?_
        have distinct : (s.enqueued.map Work.pointer).Nodup := by
          rw [queueOk.pointers]
          exact List.nodup_range
        rw [queueOk.history, List.map_append] at distinct
        have disjoint := (List.nodup_append.mp distinct).2.2
        have apart := disjoint _ (List.mem_map_of_mem (recorded.known event known)) _
          (List.mem_map_of_mem queued)
        simpa using apart
      exact ⟨0, untouched ▸ List.nil_prefix⟩

/-- Exactly-once execution and graceful shutdown: at any time one worker at most executes each
item, in the order of the requests, and behind the last `pthread_join` the ring is empty,
every requested work is completed and every item has been executed once. -/
theorem executes_exactly_once (someWorker : 0 < numThreads) {s : State} {history : List Event}
    (reached : (recordedPool numThreads n).Reach (fun state => keepsRoom state.1) (s, history)) :
    ExactlyOnce s history ∧
      (s.joinedAll → s.queueSize = 0 ∧ s.completed = s.totalWorks ∧
        taken history = s.enqueued ∧
        ∀ work ∈ s.enqueued, ∃ i, about work.pointer history = work.complete i) := by
  have recorded : Recorded s history := reach_recorded reached
  have plain : (machine numThreads n).Reach keepsRoom s := reached.forget
  have queueOk := reach_queueOk plain
  refine ⟨recorded.exactlyOnce queueOk, fun joined => ?_⟩
  obtain ⟨empty, completed⟩ := drained_of_joinedAll someWorker plain joined
  have done := (reach_closing plain).done_of_joinedAll joined
  have nothing : s.contents = [] := by
    rw [← List.length_eq_zero_iff, queueOk.filled, empty]
  have all : s.enqueued = s.dequeued := by rw [queueOk.history, nothing, List.append_nil]
  refine ⟨empty, completed, recorded.order.trans all.symm, fun work member => ?_⟩
  rcases recorded.settled work (all ▸ member) with ⟨i, k, begun⟩ | complete
  · obtain ⟨pc, found, started⟩ := Option.bind_eq_some_iff.mp begun
    rw [done pc (List.mem_of_getElem? found)] at started
    cases started
  · exact complete

/-- Two workers and one request of two works, destroyed before a worker has started. -/
def destroyedEarly : List Action :=
  [.call (.request (fun _ _ => 2) (fun _ _ => 3) 2)] ++ List.replicate 9 (.main none) ++
    [.call .destroy] ++ List.replicate 3 (.main none) ++ List.replicate 8 (.worker 0 none) ++
    List.replicate 7 (.worker 1 none) ++ List.replicate 3 (.worker 0 none) ++
    List.replicate 3 (.worker 1 none) ++ List.replicate 2 (.main none)

/-- Both items are executed although the flag was set while they were queued. -/
theorem executes_exactly_once_destroyed :
    ∃ s history, (recordedPool 2 1).Reach (fun state => keepsRoom state.1) (s, history) ∧
      s.terminate = true ∧ s.totalWorks = 2 ∧ ExactlyOnce s history ∧ s.queueSize = 0 ∧
      s.completed = s.totalWorks ∧ taken history = s.enqueued := by
  have ran : ((machine 2 1).exec (fun s action => !s.overruns action) (tpoolInit 2)
      destroyedEarly).map (fun s => (s.terminate, s.totalWorks, s.workers.length,
        match s.main with | .join i => i | _ => 0)) = some (true, 2, 2, 2) := by
    decide +kernel
  obtain ⟨s, runs, result⟩ := Option.map_eq_some_iff.mp ran
  simp only [Prod.mk.injEq] at result
  obtain ⟨flag, total, length, last⟩ := result
  have joined : s.joinedAll := by
    left
    cases main : s.main with
    | join i =>
        rw [main] at last
        have same : i = 2 := last
        rw [same, length]
    | _ =>
        rw [main] at last
        cases last
  obtain ⟨history, reached⟩ : ∃ history,
      (recordedPool 2 1).Reach (fun state => keepsRoom state.1) (s, history) :=
    (reach_of_exec runs).recorded
  obtain ⟨once, after⟩ := executes_exactly_once (by decide) reached
  obtain ⟨empty, completed, all, _⟩ := after joined
  exact ⟨s, history, reached, flag, total, once, empty, completed, all⟩

end NTUSP.Pool
