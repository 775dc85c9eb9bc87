import NTUSP.Threads.Conservation

/-!
# What the scheduler prints and leaves alone

A pass through the scheduler prints at most the creation of the idle thread. It writes
neither the loop variables kept in a tcb nor the spots of the classes, so both change only
in the routines.
-/

namespace NTUSP.Threads

open NTUSP.Library

/-- A line that no routine prints. -/
def Print.aside : Print → Bool
  | .setUp _ _ | .caught _ => true
  | _ => false

/-- The loop variables of `fibonacci` and `pm`. -/
def Tcb.locals (tcb : Tcb) : Int × Int × Int × Int := (tcb.n, tcb.i, tcb.fCur, tcb.fPrev)

namespace State

/-- Between `s` and `t` no routine ran. -/
structure Quiet (s t : State) : Prop where
  locals : ∀ p, p ≠ 0 → (t.tcbs p).locals = (s.tcbs p).locals
  spots : t.qP = s.qP ∧ t.qS = s.qS
  out : ∃ more, t.out = s.out ++ more ∧ ∀ line ∈ more, line.aside = true

variable {s t u : State} {p i : Nat}

theorem Quiet.of_same (tcbs : t.tcbs = s.tcbs) (qP : t.qP = s.qP) (qS : t.qS = s.qS)
    (out : t.out = s.out) : s.Quiet t where
  locals q _ := by rw [tcbs]
  spots := ⟨qP, qS⟩
  out := ⟨[], by rw [out, List.append_nil], by simp⟩

theorem Quiet.refl (s : State) : s.Quiet s := .of_same rfl rfl rfl rfl

theorem Quiet.trans (first : s.Quiet t) (second : t.Quiet u) : s.Quiet u where
  locals p created := (second.locals p created).trans (first.locals p created)
  spots := ⟨second.spots.1.trans first.spots.1, second.spots.2.trans first.spots.2⟩
  out := by
    obtain ⟨more, printed, aside⟩ := first.out
    obtain ⟨rest, printed', aside'⟩ := second.out
    refine ⟨more ++ rest, by rw [printed', printed, List.append_assoc], fun line member => ?_⟩
    exact (List.mem_append.mp member).elim (aside line) (aside' line)

theorem Quiet.setTcb {tcb : Tcb} (same : p ≠ 0 → tcb.locals = (s.tcbs p).locals) :
    s.Quiet (s.setTcb p tcb) where
  locals q created := by
    by_cases here : q = p
    · subst here
      simpa [State.setTcb] using same created
    · simp [State.setTcb, here]
  spots := ⟨rfl, rfl⟩
  out := ⟨[], by simp [State.setTcb], by simp⟩

/-- The running thread may change the rest of its tcb. -/
theorem Quiet.setCurrent {tcb : Tcb} (same : tcb.locals = s.current.locals) :
    s.Quiet (s.setCurrent tcb) := .setTcb fun _ => same

theorem Quiet.print (s : State) (line : Print) (aside : line.aside = true) :
    s.Quiet (s.print line) where
  locals _ _ := rfl
  spots := ⟨rfl, rfl⟩
  out := ⟨[line], rfl, by simpa using aside⟩

theorem createIdle_quiet (s : State) : s.Quiet s.createIdle := by
  unfold createIdle
  split
  · exact
      { locals := fun p created => by simp [State.setTcb, State.print, created]
        spots := ⟨rfl, rfl⟩
        out := ⟨[.setUp 0 .idle], rfl, by simp [Print.aside]⟩ }
  · exact .refl s

theorem sleepScan_quiet (s : State) : s.Quiet s.sleepScan := by
  refine sleepScan_invariant s.Quiet (fun t i quiet => quiet.trans ?_) (.refl s)
  rcases t.sleepScanStep_cases i with skipped | ⟨p, time, _, counted | woken⟩
  · rw [skipped]
    exact .refl t
  · rw [counted]
    exact .setTcb fun _ => rfl
  · rw [woken]
    have written : t.Quiet (t.setTcb p { t.tcbs p with sleepingTime := time, keepgo := true }) :=
      .setTcb fun _ => rfl
    exact written.trans (.of_same rfl rfl rfl rfl)

theorem waitScanFrom_quiet (count : Nat) : s.Quiet (s.waitScanFrom i count) := by
  induction count generalizing s i with
  | zero => exact .refl s
  | succ count ih =>
    have turn : s.Quiet (s.waitScanStep i) := by
      unfold waitScanStep
      dsimp only
      split <;> exact .of_same rfl rfl rfl rfl
    exact turn.trans ih

theorem settle_quiet (s : State) (status : Nat) : s.Quiet (s.settle status) := by
  unfold settle
  split
  · split <;> exact .of_same rfl rfl rfl rfl
  · split
    · exact .setCurrent rfl
    · exact .refl s

theorem dropSleeping_quiet (turns : Nat) : s.Quiet (s.dropSleeping turns) := by
  induction turns generalizing s with
  | zero => exact .refl s
  | succ turns ih =>
    unfold dropSleeping
    split
    · exact .refl s
    · dsimp only
      split
      · have advanced : s.Quiet { s with readyQueue := s.readyQueue.advance } :=
          .of_same rfl rfl rfl rfl
        exact advanced.trans ih
      · exact .refl s

theorem dispatch_quiet (s : State) : s.Quiet s.dispatch := by
  unfold dispatch
  split
  · split
    · exact .of_same rfl rfl rfl rfl
    · have freed : s.Quiet (s.setTcb 0 { s.tcbs 0 with freed := true }) :=
        .setTcb fun created => absurd rfl created
      exact freed.trans (.of_same rfl rfl rfl rfl)
  · have dropped : s.Quiet (s.dropSleeping THREAD_MAX) := dropSleeping_quiet THREAD_MAX
    dsimp only
    split <;> exact dropped.trans (.of_same rfl rfl rfl rfl)

/-- A pass through the scheduler runs no routine. -/
theorem scheduler_quiet (s : State) (status : Nat) : s.Quiet (s.scheduler status) := by
  have scans : s.Quiet (s.createIdle.sleepScan.waitScan) :=
    (s.createIdle_quiet.trans s.createIdle.sleepScan_quiet).trans (waitScanFrom_quiet _)
  exact (scans.trans (settle_quiet _ status)).trans (dispatch_quiet _)

theorem threadYield_quiet (s : State) (k : Nat) (pending : Option Signal) :
    s.Quiet (s.threadYield k pending) := by
  have saved : s.Quiet (s.setCurrent { s.current with env := .yield k }) := .setCurrent rfl
  cases pending with
  | none => exact saved
  | some signal =>
    exact (saved.trans (.print _ (.caught signal) rfl)).trans (scheduler_quiet _ 1)

theorem threadSleep_quiet (s : State) (seconds : Int) : s.Quiet (s.threadSleep seconds) := by
  have saved : s.Quiet (s.setCurrent { s.current with sleepingTime := seconds }) :=
    .setCurrent rfl
  have listed : s.Quiet { s.setCurrent { s.current with sleepingTime := seconds } with
      sleepingSet := s.sleepingSet.set s.current.id (some s.currentThread) } :=
    saved.trans (.of_same rfl rfl rfl rfl)
  exact listed.trans (scheduler_quiet _ 2)

theorem park_quiet (s : State) (env : Env) (resource : Nat) : s.Quiet (s.park env resource) := by
  have saved : s.Quiet (s.setCurrent { s.current with env := env, waitingFor := resource }) :=
    .setCurrent rfl
  have listed : s.Quiet (s.parking env resource) := saved.trans (.of_same rfl rfl rfl rfl)
  exact listed.trans (scheduler_quiet _ resource)

theorem threadAwake_quiet {id : Int} (woken : s.threadAwake id = some t) : s.Quiet t := by
  rcases threadAwake_cases woken with same | ⟨p, _, same⟩
  · rw [same]
    exact .refl s
  · rw [same]
    have written : s.Quiet (s.setTcb p { s.tcbs p with keepgo := true }) := .setTcb fun _ => rfl
    exact written.trans (.of_same rfl rfl rfl rfl)

/-- The creation of the threads prints nothing else, and leaves the spots alone. -/
theorem spawnThread_out (s : State) (id : Nat) (specs : List Spec) :
    (Threads.spawnThread s id specs).qP = s.qP ∧ (Threads.spawnThread s id specs).qS = s.qS ∧
      ∃ more, (Threads.spawnThread s id specs).out = s.out ++ more ∧
        ∀ line ∈ more, line.aside = true := by
  induction specs generalizing s id with
  | nil => exact ⟨rfl, rfl, [], by simp [Threads.spawnThread], by simp⟩
  | cons spec rest ih =>
    obtain ⟨qP, qS, more, printed, aside⟩ := ih (s.threadSetup spec.routine id spec.args) (id + 1)
    refine ⟨qP, qS, .setUp id spec.routine :: more, ?_, fun line member => ?_⟩
    · change (Threads.spawnThread (s.threadSetup spec.routine id spec.args) (id + 1) rest).out = _
      rw [printed]
      simp [threadSetup, setTcb, State.print]
    · rcases List.mem_cons.mp member with same | later
      · rw [same]
        rfl
      · exact aside line later

/-- At the first dispatch no routine has printed, and the classes have all their spots. -/
theorem start_out (timeSlice qP qS : Int) (specs : List Spec) :
    (start timeSlice qP qS specs).qP = qP ∧ (start timeSlice qP qS specs).qS = qS ∧
      ∀ line ∈ (start timeSlice qP qS specs).out, line.aside = true := by
  obtain ⟨sameP, sameS, more, printed, aside⟩ :=
    spawnThread_out (blank timeSlice qP qS) 1 specs
  have quiet := scheduler_quiet (Threads.spawnThread (blank timeSlice qP qS) 1 specs) 0
  obtain ⟨rest, printed', aside'⟩ := quiet.out
  refine ⟨quiet.spots.1.trans sameP, quiet.spots.2.trans sameS, fun line member => ?_⟩
  have all : (start timeSlice qP qS specs).out = more ++ rest := by
    rw [start, printed', printed]
    rfl
  rw [all] at member
  exact (List.mem_append.mp member).elim (aside line) (aside' line)

end State
end NTUSP.Threads
