import NTUSP.Pool.Effort
import NTUSP.Pool.Product

/-!
# Every call returns

However the threads are scheduled, `tpool_request` comes back with its items in the ring as long
as there is room for them, and `tpool_destroy` comes back with every item executed.
`tpool_synchronize` comes back if the signal of the last `completed++` reaches it when it waits.
No fairness is needed: every step of every thread is one of the finitely many a call takes.
-/

namespace NTUSP.Pool

open NTUSP.Library

section Frames

variable {n : Nat} {s t : State}

/-- The items in the ring and those of the current request. -/
def State.toFit (s : State) : Nat := s.queueSize + s.main.toEnqueue

/-- Nothing but a new request asks for more room in the ring. -/
theorem step_toFit {action : Action}
    (turn : ∀ job i start, s.main = .enqueue job i start → i < job.numWorks)
    (busy : s.main ≠ .ready) (stepped : s.step n action = some t) : t.toFit ≤ s.toFit := by
  rcases State.step_cases stepped with ⟨call, _, ready, _⟩ | ⟨woken, _, statement⟩ |
    ⟨i, woken, pc, _, found, statement⟩
  · exact absurd ready busy
  · generalize at_pc : s.main = pc at statement
    cases statement with
    | control lock move =>
      have same := move.effort_lt.1
      simp only [State.toFit, State.setMain, at_pc, same]
      omega
    | add =>
      simp only [State.toFit, State.setMain, at_pc, MainPc.toEnqueue, MainPc.unqueued]
      omega
    | @put job j start u signalled =>
      have less := turn job j start at_pc
      have size : u.queueSize = s.queueSize + 1 := congrArg State.queueSize (signal_frame signalled)
      simp only [State.toFit, State.setMain, at_pc, MainPc.toEnqueue, MainPc.unqueued]
      omega
    | terminate =>
      simp only [State.toFit, State.setMain, State.broadcast, at_pc, MainPc.toEnqueue,
        MainPc.unqueued]
      omega
  · obtain ⟨_, main, fewer⟩ := statement.request_frame
    rcases main with same | ⟨blocked, woke⟩
    · simp only [State.toFit, same]
      omega
    · simp only [State.toFit, blocked, woke, MainPc.toEnqueue, MainPc.unqueued]
      omega

/-- With room for the items of the request no enqueue finds the ring full. -/
theorem keepsRoom_of_toFit
    (turn : ∀ job i start, s.main = .enqueue job i start → i < job.numWorks)
    (room : s.toFit ≤ MAX_QUEUE_SIZE) (action : Action) : keepsRoom s action := by
  unfold keepsRoom State.overruns
  split
  · rename_i woken job i start at_pc
    have less := turn job i start at_pc
    simp only [State.toFit, at_pc, MainPc.toEnqueue, MainPc.unqueued] at room
    rw [decide_eq_false_iff_not]
    omega
  · rfl

end Frames

variable {numThreads n : Nat}

theorem reach_turn {guard : State → Action → Prop} {s : State}
    (reached : (machine numThreads n).Reach guard s) (job : Job) (i start : Nat)
    (at_pc : s.main = .enqueue job i start) : i < job.numWorks := by
  have loop := reach_loopOk reached
  rw [at_pc] at loop
  exact loop.1

/-- Main is inside a call it will come out of, with room in the ring for what it still enqueues. -/
structure Underway (numThreads n : Nat) (s : State) : Prop where
  reached : (machine numThreads n).Reach keepsRoom s
  room : s.toFit ≤ MAX_QUEUE_SIZE
  busy : s.main ≠ .ready
  undestroyed : s.main ≠ .destroyed
  awake : s.main = .syncWait → Awake s

/-- Every step inside a call is made with room in the ring, and leaves room. -/
theorem Underway.step {s t : State} {action : Action} (underway : Underway numThreads n s)
    (stepped : s.step n action = some t) :
    (machine numThreads n).Reach keepsRoom t ∧ t.toFit ≤ MAX_QUEUE_SIZE := by
  have turn := reach_turn underway.reached
  have fits := keepsRoom_of_toFit turn underway.room action
  have room := step_toFit turn underway.busy stepped
  exact ⟨.step underway.reached fits stepped, Nat.le_trans room underway.room⟩

/-- Call rule: if every allowed step inside a call keeps what is known of the call or comes to its
goal, the goal is inevitable. -/
theorem Underway.inevitable {allowed : State → Action → Prop} {goal : State → Prop}
    (Inv : State → Prop) (permits : ∀ s action, wakesMain s action → allowed s action)
    (underway : ∀ s, Inv s → Underway numThreads n s)
    (preserved : ∀ s action t, Inv s → allowed s action → s.step n action = some t →
      goal t ∨ Inv t) {s : State} (valid : Inv s) :
    (machine numThreads n).Inevitable allowed goal s := by
  refine Machine.Inevitable.of_variant Nat.lt_wfRel.wf
    (fun measure s => Inv s ∧ s.effort n = measure) ?_ ?_ _ ⟨valid, rfl⟩
  · rintro measure s ⟨inside, _⟩
    have call := underway s inside
    obtain ⟨action, t, reaches, stepped⟩ :=
      someone_steps call.reached call.busy call.undestroyed call.awake
    exact ⟨action, t, permits s action reaches, stepped⟩
  · rintro measure s action t ⟨inside, rfl⟩ permitted stepped
    have call := underway s inside
    have less := step_effort_lt call.reached call.busy stepped
    rcases preserved s action t inside permitted stepped with done | still
    · exact .inl done
    · exact .inr ⟨_, less, still, rfl⟩

/-! ## `tpool_request` -/

/-- The turns of the loop in `tpool_request` whose item is in the ring. -/
def MainPc.turn : MainPc → Nat
  | .enqueueLock _ i _ | .enqueue _ i _ => i
  | .enqueueUnlock _ i _ => i + 1
  | _ => 0

/-- An item of a request made in state `before`, at its address. -/
def Work.placed (before : State) (work : Work) : Work :=
  { work with c := before.requests.length, pointer := before.enqueued.length + work.pointer }

/-- What `tpool_request` leaves behind: the works are counted, and its items are put behind those
of the requests before it, in order. -/
structure Requested (n : Nat) (before : State) (a b : Matrix) (numWorks : Nat) (s : State) :
    Prop where
  returned : s.main = .ready
  requests : s.requests = before.requests ++ [⟨a, b, numWorks⟩]
  counted : s.totalWorks = before.totalWorks + numWorks
  enqueued : s.enqueued =
    before.enqueued ++ (requestItems n a b numWorks).map (Work.placed before)

/-- Main is inside the call, and the items of the turns behind it are in the ring. -/
structure Requesting (n : Nat) (before : State) (a b : Matrix) (numWorks : Nat) (s : State) :
    Prop where
  job : s.main.job? = some { requestJob n a b numWorks with c := before.requests.length }
  requests : s.requests = before.requests ++ [⟨a, b, numWorks⟩]
  counted : s.totalWorks + s.main.toCount = before.totalWorks + numWorks
  enqueued : s.enqueued = before.enqueued ++
    ((requestItems n a b numWorks).take s.main.turn).map (Work.placed before)

namespace Requesting

variable {before s t : State} {a b : Matrix} {numWorks i : Nat} {m next : MainPc} {pc : WorkerPc}
  {woken : Option Thread}

/-- Inside the loop the next turn is made, and behind the last one main returns. -/
theorem enqueueLoop {job : Job} {start : Nat} {lock : Option Thread}
    (same : job = { requestJob n a b numWorks with c := before.requests.length })
    (requests : s.requests = before.requests ++ [⟨a, b, numWorks⟩])
    (counted : s.totalWorks = before.totalWorks + numWorks)
    (enqueued : s.enqueued = before.enqueued ++
      ((requestItems n a b numWorks).take i).map (Work.placed before))
    (upper : i ≤ numWorks) :
    Requested n before a b numWorks
        (({ s with lock := lock } : State).setMain (State.enqueueLoop job i start)) ∨
      Requesting n before a b numWorks
        (({ s with lock := lock } : State).setMain (State.enqueueLoop job i start)) := by
  have works : job.numWorks = numWorks := by
    rw [same]
    rfl
  unfold State.enqueueLoop
  by_cases more : i < job.numWorks
  · rw [if_pos more]
    exact .inr ⟨congrArg some same, requests, counted, enqueued⟩
  · rw [if_neg more]
    have last : i = numWorks := by omega
    have all : (requestItems n a b numWorks).take i = requestItems n a b numWorks := by
      apply List.take_of_length_le
      rw [last, ← List.getElem?_eq_none_iff, requestItems_get, if_neg (Nat.lt_irrefl _)]
    rw [all] at enqueued
    exact .inl ⟨rfl, requests, counted, enqueued⟩

/-- A move of main inside the call. -/
theorem move {lock : Option Thread} (requesting : Requesting n before a b numWorks s)
    (loop : LoopOk n s.main) (at_pc : s.main = m) (move : MainMove s m next) :
    Requested n before a b numWorks (({ s with lock := lock } : State).setMain next) ∨
      Requesting n before a b numWorks (({ s with lock := lock } : State).setMain next) := by
  obtain ⟨job, requests, counted, enqueued⟩ := requesting
  rw [at_pc] at job counted enqueued loop
  cases move with
  | requestLock => exact .inr ⟨job, requests, counted, enqueued⟩
  | enqueueLock => exact .inr ⟨job, requests, counted, enqueued⟩
  | requestUnlock =>
    exact enqueueLoop (Option.some.inj job) requests counted enqueued (Nat.zero_le _)
  | @enqueueUnlock job' j end_ =>
    have same := Option.some.inj job
    have works : job'.numWorks = numWorks := by
      rw [same]
      rfl
    have less : j < job'.numWorks := loop.1
    exact enqueueLoop same requests counted enqueued (by omega)
  | _ => cases job

/-- The next item of the request goes behind the others. -/
theorem put {job : Job} {start : Nat} (requesting : Requesting n before a b numWorks s)
    (loop : LoopOk n s.main) (at_pc : s.main = .enqueue job i start)
    (signalled : (s.putWork (s.newWork n job i start)).signal woken = some t) (end_ : Nat) :
    Requesting n before a b numWorks (t.setMain (.enqueueUnlock job i end_)) := by
  obtain ⟨sameJob, requests, counted, enqueued⟩ := requesting
  rw [at_pc] at sameJob counted enqueued loop
  have frame := signal_frame signalled
  have same : job = { requestJob n a b numWorks with c := before.requests.length } :=
    Option.some.inj sameJob
  obtain ⟨less, _, _, at_turn⟩ := loop
  rw [same] at less at_turn
  have less : i < numWorks := less
  have enqueued : s.enqueued = before.enqueued ++
    ((requestItems n a b numWorks).take i).map (Work.placed before) := enqueued
  have found : (requestItems n a b numWorks)[i]? = some (item n (requestJob n a b numWorks) i
      (rangeStart (n * n / numWorks) (n * n % numWorks) i)) := by
    rw [requestItems_get, if_pos less]
  have length : ((requestItems n a b numWorks).take i).length = i := by
    rw [List.length_take, Nat.min_eq_left]
    exact Nat.le_of_lt (List.getElem?_eq_some_iff.mp found).1
  refine ⟨sameJob, (congrArg State.requests frame).trans requests,
    (congrArg State.totalWorks frame).trans counted, (congrArg State.enqueued frame).trans ?_⟩
  change s.enqueued ++ [s.newWork n job i start] =
    before.enqueued ++ ((requestItems n a b numWorks).take (i + 1)).map (Work.placed before)
  have address : s.enqueued.length = before.enqueued.length + i := by
    rw [enqueued, List.length_append, List.length_map]
    exact congrArg _ length
  rw [List.take_add_one, found, List.map_append, ← List.append_assoc, ← enqueued, newWork_eq_item,
    address, same, at_turn]
  rfl

/-- A statement of a worker does not touch the request. -/
theorem worker (requesting : Requesting n before a b numWorks s)
    (stepped : WorkerStep s i woken pc t) : Requesting n before a b numWorks t := by
  obtain ⟨job, requests, counted, enqueued⟩ := requesting
  obtain ⟨fields, main, _⟩ := stepped.request_frame
  obtain ⟨sameRequests, rest⟩ := Prod.mk.inj fields
  obtain ⟨sameTotal, sameEnqueued⟩ := Prod.mk.inj rest
  have same : t.main = s.main := by
    rcases main with same | ⟨blocked, _⟩
    · exact same
    · rw [blocked] at job
      cases job
  constructor
  · rw [same, job]
  · rw [sameRequests, requests]
  · rw [sameTotal, same, counted]
  · rw [sameEnqueued, same, enqueued]

/-- Main is not blocked inside `tpool_request`. -/
theorem underway (requesting : Requesting n before a b numWorks s)
    (reached : (machine numThreads n).Reach keepsRoom s) (room : s.toFit ≤ MAX_QUEUE_SIZE) :
    Underway numThreads n s := by
  have job := requesting.job
  refine ⟨reached, room, ?_, ?_, ?_⟩
  all_goals
    intro at_pc
    rw [at_pc] at job
    cases job

/-- A step inside the call keeps it underway, or main returns from it. -/
theorem step {action : Action} (requesting : Requesting n before a b numWorks s)
    (loop : LoopOk n s.main) (stepped : s.step n action = some t) :
    Requested n before a b numWorks t ∨ Requesting n before a b numWorks t := by
  rcases State.step_cases stepped with ⟨call, _, ready, _⟩ | ⟨woken, _, statement⟩ |
    ⟨i, woken, pc, _, found, statement⟩
  · have job := requesting.job
    rw [ready] at job
    cases job
  · generalize at_pc : s.main = m at statement
    cases statement with
    | control lock move => exact requesting.move loop at_pc move
    | add =>
      obtain ⟨job, requests, counted, enqueued⟩ := requesting
      rw [at_pc] at job counted enqueued
      exact .inr ⟨job, requests, counted, enqueued⟩
    | put signalled => exact .inr (requesting.put loop at_pc signalled _)
    | terminate =>
      have job := requesting.job
      rw [at_pc] at job
      cases job
  · exact .inr (requesting.worker statement)

end Requesting

/-- Main is inside `tpool_synchronize`. -/
def MainPc.synchronizing : MainPc → Bool
  | .syncLock | .syncTest | .syncWait | .syncWake | .syncUnlock => true
  | _ => false

/-- The guard of the runs with room in the ring whose completion signals reach a blocked main. -/
def keepsRoomWakesMain (s : State) (action : Action) : Prop :=
  keepsRoom s action ∧ wakesMain s action

/-- A blocked main leaves some worker awake: there is still a work to complete. -/
theorem awake_of_blocked (someWorker : 0 < numThreads) {s : State}
    (reached : (machine numThreads n).Reach wakesMain s) (blocked : s.main = .syncWait) :
    Awake s := by
  have outstanding := reach_outstanding reached blocked
  have balanced := reach_balanced reached
  unfold Balanced at balanced
  rw [blocked] at balanced
  simp only [MainPc.unqueued] at balanced
  by_cases queued : 0 < s.queueSize
  · exact reach_awake someWorker reached queued
  · have held : 0 < s.workers.countP WorkerPc.inFlight := by
      simp only [State.inFlight] at balanced
      omega
    obtain ⟨pc, member, flying⟩ := List.countP_pos_iff.mp held
    refine ⟨pc, member, ?_⟩
    cases pc <;> first | rfl | cases flying

/-- A step inside `tpool_synchronize` stays there, or returns with the ring empty. -/
theorem synchronizing_step {guard : State → Action → Prop} {s t : State} {action : Action}
    (reached : (machine numThreads n).Reach guard s) (inside : s.main.synchronizing = true)
    (stepped : s.step n action = some t) :
    (t.main = .ready ∧ t.queueSize = 0) ∨ t.main.synchronizing = true := by
  rcases State.step_cases stepped with ⟨call, _, ready, _⟩ | ⟨woken, _, statement⟩ |
    ⟨i, woken, pc, _, found, statement⟩
  · rw [ready] at inside
    cases inside
  · generalize at_pc : s.main = pc at statement
    rw [at_pc] at inside
    cases statement with
    | control lock move =>
      cases move with
      | synchronized =>
        have empty := reach_syncUnlock_empty reached at_pc
        exact .inl ⟨rfl, empty⟩
      | syncLock | block | pass | syncWake => exact .inr rfl
      | _ => cases inside
    | add | put | terminate => cases inside
  · obtain ⟨_, main, _⟩ := statement.request_frame
    rcases main with same | ⟨_, woke⟩
    · rw [same]
      exact .inr inside
    · rw [woke]
      exact .inr rfl

/-- Whether main is between its calls. -/
def MainPc.isReady : MainPc → Bool
  | .ready => true
  | _ => false

theorem MainPc.eq_of_isReady {pc : MainPc} (idle : pc.isReady = true) : pc = .ready := by
  cases pc <;> first | rfl | cases idle

/-- One request of two works, enqueued before a worker has started. -/
def requestedTwo : List Action :=
  .call (.request (fun i _ => i) (fun _ j => j) 2) :: List.replicate 9 (.main none)

/-- Main is inside `tpool_destroy`. -/
def MainPc.destroying : MainPc → Bool
  | .destroyLock | .destroySet | .destroyUnlock | .join _ => true
  | _ => false

/-- What `tpool_destroy` leaves behind: every thread has ended, nothing is in the ring, and every
work requested before is counted and its product computed. -/
structure Destroyed (n : Nat) (before s : State) : Prop where
  destroyed : s.main = .destroyed
  ended : ∀ pc ∈ s.workers, pc = .done
  empty : s.queueSize = 0
  requests : s.requests = before.requests
  finished : Synchronized n s

/-- Behind the last join everything is executed. -/
theorem destroyed_of_joinedAll (someWorker : 0 < numThreads) {before s : State}
    (reached : (machine numThreads n).Reach keepsRoom s) (destroyed : s.main = .destroyed)
    (requests : s.requests = before.requests) : Destroyed n before s := by
  have ended := (reach_closing reached).done_of_joinedAll (.inr destroyed)
  obtain ⟨empty, counted⟩ := drained_of_joinedAll someWorker reached (.inr destroyed)
  refine ⟨destroyed, ended, empty, requests, ?_⟩
  refine synchronized_of_idle reached empty (fun pc member => ?_) ?_ counted
  · rw [ended pc member]
    rfl
  · rw [destroyed]
    rfl

/-- A step inside `tpool_destroy` stays there, or is the last. -/
theorem destroying_step {s t : State} {action : Action} (inside : s.main.destroying = true)
    (stepped : s.step n action = some t) :
    t.requests = s.requests ∧ (t.main = .destroyed ∨ t.main.destroying = true) := by
  rcases State.step_cases stepped with ⟨call, _, ready, _⟩ | ⟨woken, _, statement⟩ |
    ⟨i, woken, pc, _, found, statement⟩
  · rw [ready] at inside
    cases inside
  · generalize s.main = pc at statement inside
    cases statement with
    | control lock move =>
      cases move with
      | destroyLock | destroyUnlock | join => exact ⟨rfl, .inr rfl⟩
      | destroyed => exact ⟨rfl, .inl rfl⟩
      | _ => cases inside
    | add | put => cases inside
    | terminate => exact ⟨rfl, .inr rfl⟩
  · obtain ⟨fields, main, _⟩ := statement.request_frame
    refine ⟨(Prod.mk.inj fields).1, .inr ?_⟩
    rcases main with same | ⟨blocked, _⟩
    · rw [same, inside]
    · rw [blocked] at inside
      cases inside

end NTUSP.Pool
