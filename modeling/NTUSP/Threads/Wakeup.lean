import NTUSP.Threads.Nap
import NTUSP.Threads.Values
import NTUSP.Threads.RoundRobin

/-!
# Sleep and wake-up

A thread that runs `enroll` sleeps on its first dispatch, until the entry of the scheduler at
which its time is up, or until another thread wakes it before. Then it is in the ready queue
once, and goes on behind the sleep. The history of a run says which, since every moment of it
keeps to the phase of the sleep.
-/

namespace NTUSP.Threads

open NTUSP.Library

/-- A history with the events that end the sleep of thread `p`: entry number `k`, or
`thread_awake` by another thread. -/
def Woken (p k : Nat) (moments : List (Event × State)) : Prop :=
  k ≤ (moments.map Prod.fst).count .entry ∨ ∃ q, q ≠ p ∧ .awake q p ∈ moments.map Prod.fst

/-! ## The phase behind a history -/

namespace Nap

variable {nap : Nap} {phase : Phase} {k : Nat} {moments : List (Event × State)}

theorem run_fresh (nap : Nap) (absent : .sleep nap.p ∉ moments.map Prod.fst) :
    nap.monitor.run .fresh moments = .fresh := by
  induction moments with
  | nil => rfl
  | cons moment rest ih =>
    rw [List.map_cons, List.mem_cons, not_or] at absent
    have still : nap.next .fresh moment.1 = .fresh := by
      cases event : moment.1 with
      | sleep q =>
        rw [event] at absent
        exact if_neg fun own => absent.1 (by rw [own])
      | _ => rfl
    rw [Monitor.run_cons, monitor_next, still]
    exact ih absent.2

theorem next_ne_fresh (awake : phase ≠ .fresh) (event : Event) :
    nap.next phase event ≠ .fresh := by
  cases phase with
  | fresh => exact absurd rfl awake
  | asleep entries =>
    cases event with
    | entry =>
      rw [next_entry]
      split <;> nofun
    | awake q id =>
      rw [next_awake]
      split <;> nofun
    | _ => nofun
  | ready =>
    cases event with
    | dispatch q =>
      rw [next_dispatch]
      split <;> nofun
    | _ => nofun
  | resumed => nofun

/-- A thread sleeps once, and only if it has not slept yet. -/
theorem count_sleep_le (nap : Nap) (follows : nap.monitor.Follows nap.Seen phase moments) :
    (moments.map Prod.fst).count (.sleep nap.p) ≤ if phase = .fresh then 1 else 0 := by
  induction moments generalizing phase with
  | nil => exact Nat.zero_le _
  | cons moment rest ih =>
    obtain ⟨seen, later⟩ := follows
    have bound := ih later
    rw [List.map_cons, List.count_cons]
    by_cases sleeps : moment.1 = .sleep nap.p
    · have fresh := seen.first sleeps
      have slept : nap.next phase moment.1 = .asleep 0 := by
        rw [fresh, sleeps]
        exact if_pos rfl
      rw [monitor_next, slept, if_neg (by decide)] at bound
      rw [fresh, sleeps, if_pos rfl, if_pos BEq.rfl]
      omega
    · rw [if_neg (by simpa using sleeps), Nat.add_zero]
      refine bound.trans ?_
      by_cases fresh : phase = .fresh
      · rw [if_pos fresh]
        split <;> omega
      · rw [monitor_next, if_neg (next_ne_fresh fresh _)]
        exact Nat.zero_le _

/-- Until it is woken, the phase counts the entries. -/
theorem run_asleep (nap : Nap) (k : Nat) (moments : List (Event × State))
    (early : nap.entries > k + (moments.map Prod.fst).count .entry)
    (alone : ∀ q, q ≠ nap.p → .awake q nap.p ∉ moments.map Prod.fst) :
    nap.monitor.run (.asleep k) moments =
      .asleep (k + (moments.map Prod.fst).count .entry) := by
  induction moments generalizing k with
  | nil => rfl
  | cons moment rest ih =>
    rw [List.map_cons, List.count_cons] at early
    have others : ∀ q, q ≠ nap.p → .awake q nap.p ∉ rest.map Prod.fst := fun q other member =>
      alone q other (List.mem_cons_of_mem _ member)
    rw [Monitor.run_cons, monitor_next, List.map_cons, List.count_cons]
    by_cases entry : moment.1 = .entry
    · rw [entry, if_pos BEq.rfl] at early ⊢
      have counts : nap.next (.asleep k) .entry = .asleep (k + 1) := if_neg (by omega)
      rw [counts, ih _ (by omega) others]
      congr 1
      omega
    · have still : nap.next (.asleep k) moment.1 = .asleep k := by
        cases event : moment.1 with
        | awake q id =>
          refine if_neg ?_
          rintro ⟨other, rfl⟩
          refine alone q other ?_
          rw [List.map_cons, event]
          exact List.mem_cons_self
        | entry => exact absurd event entry
        | _ => rfl
      rw [if_neg (by simpa using entry), Nat.add_zero] at early ⊢
      rw [still]
      exact ih k early others

/-- The moment that wakes it. -/
theorem next_of_woken {early : List (Event × State)} {moment : Event × State}
    (before : ¬ Woken nap.p nap.entries early)
    (now : Woken nap.p nap.entries (early ++ [moment])) :
    nap.next (.asleep ((early.map Prod.fst).count .entry)) moment.1 = .ready := by
  unfold Woken at before now
  rw [not_or] at before
  rw [List.map_append, List.count_append, List.map_singleton, List.count_singleton] at now
  rcases now with up | ⟨q, other, member⟩
  · cases event : moment.1 with
    | entry =>
      rw [event, if_pos BEq.rfl] at up
      exact if_pos up
    | _ =>
      rw [event] at up
      exact absurd up before.1
  · rcases List.mem_append.mp member with earlier | here
    · exact absurd ⟨q, other, earlier⟩ before.2
    · rw [← List.mem_singleton.mp here]
      exact if_pos ⟨other, rfl⟩

theorem run_resumed (nap : Nap) (moments : List (Event × State)) :
    nap.monitor.run .resumed moments = .resumed := by
  induction moments with
  | nil => rfl
  | cons moment rest ih => exact ih

/-- Once woken it is ready until it is dispatched. -/
theorem run_ready (nap : Nap) (moments : List (Event × State)) :
    nap.monitor.run .ready moments =
      if .dispatch nap.p ∈ moments.map Prod.fst then .resumed else .ready := by
  induction moments with
  | nil => rfl
  | cons moment rest ih =>
    rw [Monitor.run_cons, monitor_next]
    by_cases goes : moment.1 = .dispatch nap.p
    · have next : nap.next .ready moment.1 = .resumed := by
        rw [goes]
        exact if_pos rfl
      rw [next, run_resumed, if_pos (by rw [← goes]; exact List.mem_cons_self)]
    · have next : nap.next .ready moment.1 = .ready := by
        cases event : moment.1 with
        | dispatch q => exact if_neg fun own => goes (by rw [event, own])
        | _ => rfl
      rw [next, ih, List.map_cons]
      simp only [List.mem_cons, Ne.symm goes, false_or]

end Nap

/-! ## Every run -/

/-- Thread `p` is in its entry of the sleeping set and not ready, with `time` to go. -/
def Sleeps (p : Nat) (time : Int) (s : State) : Prop :=
  s.sleepingSet[p]? = some (some p) ∧ s.readyQueue.contents.count p = 0 ∧
    (s.tcbs p).sleepingTime = time ∧ 0 < time ∧ time ≤ INT_MAX

/-- The entry of thread `p` is empty, and it is ready once. -/
def ReadyOnce (p : Nat) (s : State) : Prop :=
  s.sleepingSet[p]? = some none ∧ s.readyQueue.contents.count p = 1

/-- Thread `p` behind the moment it was woken in, with the moments since then. -/
structure WokenOnce (p : Nat) (b : Int) (woken : State) (late : List (Event × State)) : Prop where
  out : ReadyOnce p woken
  never : ∀ moment ∈ late, moment.2.sleepingSet[p]? = some none
  ready : ∀ waiting moment rest, late = waiting ++ moment :: rest →
    .dispatch p ∉ (waiting ++ [moment]).map Prod.fst → ReadyOnce p moment.2
  resumes : ∀ waiting s rest, late = waiting ++ (.dispatch p, s) :: rest →
    .dispatch p ∉ waiting.map Prod.fst → s.currentThread = p ∧ ∀ pending, ∃ t,
      s.step pending = some t ∧ (s.threadAwake b).map (·.enrollReadLock pending) = some t

/-- Thread `p` behind its `thread_sleep`, with the moments since then: it sleeps until it is
woken, and counts down at every entry of the scheduler. -/
structure SleepsUntilWoken (p k : Nat) (seconds b timeSlice : Int) (slept : State)
    (after : List (Event × State)) : Prop where
  begins : Sleeps p (seconds + timeSlice) slept
  sleeps : ∀ early moment late, after = early ++ moment :: late →
    ¬ Woken p k (early ++ [moment]) →
      Sleeps p (seconds + timeSlice -
        ((early ++ [moment]).map Prod.fst).count .entry * timeSlice) moment.2
  wakes : ∀ early moment late, after = early ++ moment :: late → ¬ Woken p k early →
    Woken p k (early ++ [moment]) → WokenOnce p b moment.2 late

namespace Nap

variable {nap : Nap} {phase : Phase} {s : State} {n hand k : Nat}
  {early late : List (Event × State)} {moment : Event × State}

theorem Meets.sleeps (meets : nap.Meets (.asleep k) s) (acc : s.Accounted n hand)
    (upper : nap.duration ≤ INT_MAX) :
    Sleeps nap.p (nap.duration - k * nap.timeSlice) s := by
  obtain ⟨_, asleep, early, time⟩ := meets.holds
  have ticking := nap.ticking
  have notDue := (not_congr (nap.due_iff k)).mpr (by omega)
  have passed : (0 : Int) ≤ k * nap.timeSlice :=
    Int.mul_nonneg (Int.natCast_nonneg k) (by omega)
  have once := acc.queued_le_one nap.p
  have inSet := List.count_pos_iff.mpr (acc.mem_sleepingSet.mpr asleep)
  unfold State.queued at once
  exact ⟨asleep, by omega, time, by omega, by omega⟩

theorem Meets.readyOnce (meets : nap.Meets .ready s) (acc : s.Accounted n hand) :
    ReadyOnce nap.p s := by
  obtain ⟨_, _, vacant, member⟩ := meets.holds
  have once := acc.queued_le_one nap.p
  have here := List.count_pos_iff.mpr member
  unfold State.queued at once
  exact ⟨vacant, by omega⟩

/-- The first dispatch runs into `thread_sleep`. -/
theorem Meets.first (meets : nap.Meets .fresh s) (id : s.current.id = s.currentThread)
    (runs : s.currentThread = nap.p) (going : s.returned = false) :
    s.body = some (s.print (.sleep nap.p (nap.args.getD 2 0)), .sleep nap.duration) := by
  obtain ⟨env, keepgo, _⟩ := meets.holds
  have own : s.current = s.tcbs nap.p := by rw [State.current, runs]
  unfold State.body State.enrollJump
  rw [id, own, meets.routine, env, keepgo, meets.args, meets.timeSlice, runs, going]
  rfl

/-- The jump of that sleep causes an entry at once. -/
theorem Meets.first_moments (meets : nap.Meets .fresh s) (id : s.current.id = s.currentThread)
    (runs : s.currentThread = nap.p) (going : s.returned = false) (pending : Option Signal) :
    ∃ rest, s.moments pending =
      (.sleep nap.p, (s.print (.sleep nap.p (nap.args.getD 2 0))).asleep nap.duration) ::
      (.entry, ((s.print (.sleep nap.p (nap.args.getD 2 0))).asleep
        nap.duration).createIdle.sleepScan) :: rest := by
  have unwoken : s.awakeMoments = [] := by
    refine if_neg fun all => ?_
    have keepgo := meets.holds.2.1
    rw [← runs] at keepgo
    exact absurd (keepgo.symm.trans all.2.2) (by decide)
  unfold State.moments
  rw [meets.first id runs going, unwoken, ← runs]
  exact ⟨_, rfl⟩

/-- The dispatch behind the wake-up goes on past the sleep. -/
theorem Meets.resumes (meets : nap.Meets phase s) (keepgo : (s.tcbs nap.p).keepgo = true)
    (env : (s.tcbs nap.p).env = .setup) (runs : s.currentThread = nap.p)
    (going : s.returned = false) (target : 0 ≤ nap.args.getD 3 0 ∧ nap.args.getD 3 0 ≤ THREAD_MAX)
    (pending : Option Signal) : ∃ t, s.step pending = some t ∧
      (s.threadAwake (nap.args.getD 3 0)).map (·.enrollReadLock pending) = some t := by
  have own : s.current = s.tcbs nap.p := by rw [State.current, runs]
  have step : s.step pending =
      (s.threadAwake (nap.args.getD 3 0)).map (·.enrollReadLock pending) := by
    unfold State.step State.runEnroll
    rw [own, meets.routine, env, keepgo, meets.args, going]
    rfl
  rw [step]
  unfold State.threadAwake
  rw [if_pos target]
  split
  · exact ⟨_, rfl, rfl⟩
  · exact ⟨_, rfl, rfl⟩

/-- From the moment it is woken in. -/
theorem wokenOnce (follows : nap.monitor.Follows nap.Seen .ready late)
    (seen : nap.Meets .ready s) (acc : s.Accounted n hand)
    (target : 0 ≤ nap.args.getD 3 0 ∧ nap.args.getD 3 0 ≤ THREAD_MAX) :
    WokenOnce nap.p (nap.args.getD 3 0) s late where
  out := seen.readyOnce acc
  never moment member := by
    obtain ⟨waiting, rest, rfl⟩ := List.append_of_mem member
    obtain ⟨_, here, _⟩ := follows.split
    refine here.meets.vacant fun entries asleep => ?_
    have behind : nap.monitor.run .ready (waiting ++ [moment]) = .asleep entries := by
      rw [Monitor.run_append]
      exact asleep
    rw [run_ready] at behind
    split at behind <;> cases behind
  ready waiting moment rest split undisturbed := by
    subst split
    obtain ⟨_, here, _⟩ := follows.split
    obtain ⟨n, hand, acc⟩ := here.accounted
    have phase : nap.monitor.run .ready (waiting ++ [moment]) = .ready := by
      rw [run_ready, if_neg undisturbed]
    rw [Monitor.run_append] at phase
    have meets := here.meets
    rw [show nap.next (nap.monitor.run .ready waiting) moment.1 = .ready from phase] at meets
    exact meets.readyOnce acc
  resumes waiting s rest split undisturbed := by
    subst split
    obtain ⟨_, here, _⟩ := follows.split
    have phase : nap.monitor.run .ready waiting = .ready := by
      rw [run_ready, if_neg undisturbed]
    rw [phase] at here
    obtain ⟨runs, going, env⟩ := here.chosen rfl
    have meets := here.meets
    have resumed : nap.next .ready (.dispatch nap.p) = .resumed := if_pos rfl
    rw [resumed] at meets
    exact ⟨runs, fun pending =>
      meets.resumes meets.holds.1 (env rfl) runs going target pending⟩

/-- From the moment it went to sleep. -/
theorem sleepsUntilWoken {after : List (Event × State)}
    (follows : nap.monitor.Follows nap.Seen (.asleep 0) after) (seen : nap.Meets (.asleep 0) s)
    (acc : s.Accounted n hand) (upper : nap.duration ≤ INT_MAX)
    (target : 0 ≤ nap.args.getD 3 0 ∧ nap.args.getD 3 0 ≤ THREAD_MAX) :
    SleepsUntilWoken nap.p nap.entries (nap.args.getD 2 0) (nap.args.getD 3 0) nap.timeSlice s
      after where
  begins := by
    have sleeps := seen.sleeps acc upper
    rwa [Int.natCast_zero, Int.zero_mul, Int.sub_zero] at sleeps
  sleeps early moment late split undisturbed := by
    subst split
    obtain ⟨_, here, _⟩ := follows.split
    obtain ⟨n, hand, acc⟩ := here.accounted
    have phase := nap.run_asleep 0 (early ++ [moment])
      (by unfold Woken at undisturbed; rw [not_or] at undisturbed; omega)
      (fun q other member => undisturbed (.inr ⟨q, other, member⟩))
    rw [Nat.zero_add, Monitor.run_append] at phase
    have meets := here.meets
    rw [show nap.next (nap.monitor.run (.asleep 0) early) moment.1 = .asleep _ from phase] at meets
    exact meets.sleeps acc upper
  wakes early moment late split before now := by
    subst split
    obtain ⟨_, here, later⟩ := follows.split
    obtain ⟨n, hand, acc⟩ := here.accounted
    have phase := nap.run_asleep 0 early
      (by unfold Woken at before; rw [not_or] at before; omega)
      (fun q other member => before (.inr ⟨q, other, member⟩))
    rw [Nat.zero_add] at phase
    have woken := next_of_woken before now
    have meets := here.meets
    rw [phase, woken] at meets
    rw [Monitor.run_append, phase] at later
    rw [show nap.monitor.run (.asleep _) [moment] = .ready from woken] at later
    exact wokenOnce later meets acc target

end Nap

open State

variable {timeSlice qP qS : Int} {specs : List Spec} {p k : Nat} {dP dS seconds b : Int}
  {run : State × List (Event × State)}

/-- The program with the moments of its steps. -/
def watched (timeSlice qP qS : Int) (specs : List Spec) :
    Machine (State × List (Event × State)) (Option Signal) :=
  (machine timeSlice qP qS specs).recording moments

theorem watched_initial {s : State} (first : s = start timeSlice qP qS specs) :
    (watched timeSlice qP qS specs).Initial (s, []) := ⟨first, rfl⟩

theorem State.spawnThread_timeSlice (s : State) (id : Nat) (specs : List Spec) :
    (spawnThread s id specs).timeSlice = s.timeSlice := by
  induction specs generalizing s id with
  | nil => rfl
  | cons spec rest ih => exact ih (s.threadSetup spec.routine id spec.args) (id + 1)

/-- While a created thread runs the scheduler has not returned. -/
theorem reach_going {guard : State → Option Signal → Prop} {s : State}
    (few : specs.length < THREAD_MAX) (reached : (machine timeSlice qP qS specs).Reach guard s) :
    s.currentThread ≠ 0 → s.returned = false := by
  refine reached.invariant (fun s => s.currentThread ≠ 0 → s.returned = false) ?_ ?_
  · intro state initial
    have same : state = start timeSlice qP qS specs := initial
    have after := start_after timeSlice qP qS few
    rw [same]
    exact after.consistent.going fun returned => (after.finished returned).1
  · intro state pending next prior _ _ steps
    obtain ⟨_, _, _, _, moved⟩ := (reach_consistent few prior).step steps
    exact moved.consistent.going fun returned => (moved.finished returned).1

/-- Before its first dispatch the thread has not slept. -/
theorem Nap.start_meets (nap : Nap) (qP qS : Int) (few : specs.length < THREAD_MAX)
    {spec : Spec} (named : specs[nap.p - 1]? = some spec) (enroll : spec.routine = .enroll)
    (args : spec.args = nap.args) : nap.Meets .fresh (start nap.timeSlice qP qS specs) := by
  have spawned := State.spawned nap.timeSlice qP qS few
  have created := nap.created
  have own := spawnThread_tcb (blank nap.timeSlice qP qS) 1 specs named
  rw [show 1 + (nap.p - 1) = nap.p by omega] at own
  have meets : nap.Meets .fresh (spawnThread (blank nap.timeSlice qP qS) 1 specs) :=
    { routine := by rw [own]; exact enroll
      args := by rw [own]; exact args
      timeSlice := spawnThread_timeSlice _ 1 specs
      holds := by
        have inside := nap.inside
        refine ⟨by rw [own], by rw [own], ?_⟩
        rw [spawnThread_sleepingSet]
        exact List.getElem?_replicate_of_lt (by omega) }
  have initial : (machine nap.timeSlice qP qS specs).Reach Machine.anyStep
      (start nap.timeSlice qP qS specs) := .initial rfl
  exact (meets.pass 0 ⟨spawned.entered, .inl spawned.idleRuns⟩ (reach_going few initial)).2

/-- Every run follows the phase of every sleep. -/
theorem Nap.reach_follows (nap : Nap) (few : specs.length < THREAD_MAX) {spec : Spec}
    (named : specs[nap.p - 1]? = some spec) (enroll : spec.routine = .enroll)
    (args : spec.args = nap.args)
    (reached : (watched nap.timeSlice qP qS specs).Reach
      (fun state => Machine.anyStep state.1) run) :
    nap.monitor.Follows nap.Seen .fresh run.2 ∧
      nap.Meets (nap.monitor.run .fresh run.2) run.1 := by
  refine Monitor.Follows.of_reach nap.Meets ?_ ?_ reached
  · intro state initial
    have same : state = start nap.timeSlice qP qS specs := initial
    rw [same]
    exact nap.start_meets qP qS few named enroll args
  · intro phase state pending next prior meets steps
    exact meets.step (reach_consistent few prior) steps

/-- In every run a thread created for `enroll` executes `thread_sleep` the first time it is
dispatched and never again. From then on it is asleep and not ready until entry `k` of the
scheduler, of which the one its own jump causes is the first, or until another thread wakes it
before; there it leaves the sleeping set and is ready once, and its next dispatch goes on
behind the sleep. -/
theorem sleep_and_wakeup (few : specs.length < THREAD_MAX) (timed : 1 ≤ timeSlice)
    (created : 1 ≤ p) (named : specs[p - 1]? = some (.enroll dP dS seconds b))
    (rested : 0 ≤ seconds) (inRange : seconds + timeSlice ≤ INT_MAX)
    (target : 0 ≤ b ∧ b ≤ THREAD_MAX)
    (least : IsLeast {k : Nat | seconds + timeSlice ≤ k * timeSlice} k)
    (reached : (watched timeSlice qP qS specs).Reach
      (fun state => Machine.anyStep state.1) run) :
    (run.1.currentThread = p → .sleep p ∉ run.2.map Prod.fst →
      ∀ pending, run.1.step pending = some
          ((run.1.print (.sleep p seconds)).threadSleep (seconds + timeSlice)) ∧
        ∃ rest, run.1.moments pending =
          (.sleep p, (run.1.print (.sleep p seconds)).asleep (seconds + timeSlice)) ::
          (.entry, ((run.1.print (.sleep p seconds)).asleep
            (seconds + timeSlice)).createIdle.sleepScan) :: rest) ∧
    (run.2.map Prod.fst).count (.sleep p) ≤ 1 ∧
    ∀ before slept after, run.2 = before ++ (.sleep p, slept) :: after →
      SleepsUntilWoken p k seconds b timeSlice slept after := by
  have inside : p - 1 < specs.length := (List.getElem?_eq_some_iff.mp named).1
  let nap : Nap :=
    { p := p, args := [dP, dS, seconds, b], timeSlice := timeSlice, entries := k
      created := by omega, inside := by omega, ticking := timed, rested := rested
      least := least }
  obtain ⟨follows, meets⟩ := nap.reach_follows few named rfl rfl reached
  refine ⟨fun runs absent pending => ?_, nap.count_sleep_le follows,
    fun before slept after split => ?_⟩
  · rw [nap.run_fresh absent] at meets
    have id := (reach_consistent few reached.forget).accounted.ids run.1.currentThread
    have going := reach_going few reached.forget (by omega)
    have ran := meets.first id runs going
    refine ⟨?_, meets.first_moments id runs going pending⟩
    rw [step_eq_body, ran]
    rfl
  · rw [split] at follows
    obtain ⟨_, here, later⟩ := follows.split
    obtain ⟨n, hand, acc⟩ := here.accounted
    have fresh := here.first rfl
    have sleeps : nap.next .fresh (.sleep p) = .asleep 0 := if_pos rfl
    have slept := here.meets
    rw [fresh, sleeps] at slept
    rw [Monitor.run_append, fresh, Monitor.run_cons, Nap.monitor_next, sleeps] at later
    exact Nap.sleepsUntilWoken later slept acc inRange target

/-- The first thread wakes the second one, which has slept through one entry of four. -/
theorem sleep_and_wakeup_two : ∃ run,
    (watched 1 1 1 [.enroll 1 1 0 2, .enroll 1 1 3 1]).Reach
      (fun state => Machine.anyStep state.1) run ∧
    run.2.map Prod.fst =
      [.sleep 1, .entry, .waitScan, .settle, .dispatch 2, .sleep 2, .entry, .waitScan, .settle,
        .dispatch 1, .awake 1 2, .proceed] ∧
    ∃ before slept after, run.2 = before ++ (.sleep 2, slept) :: after ∧
      SleepsUntilWoken 2 4 3 1 1 slept after := by
  have ran : ((watched 1 1 1 [.enroll 1 1 0 2, .enroll 1 1 3 1]).exec (fun _ _ => true)
      (start 1 1 1 [.enroll 1 1 0 2, .enroll 1 1 3 1], []) [none, none, none]).map
        (fun run => run.2.map Prod.fst) =
      some [.sleep 1, .entry, .waitScan, .settle, .dispatch 2, .sleep 2, .entry, .waitScan, .settle,
        .dispatch 1, .awake 1 2, .proceed] := by
    decide +kernel
  obtain ⟨run, runs, events⟩ := Option.map_eq_some_iff.mp ran
  have reached : (watched 1 1 1 [.enroll 1 1 0 2, .enroll 1 1 3 1]).Reach
      (fun state => Machine.anyStep state.1) run :=
    (Machine.Reach.initial (watched_initial rfl)).exec (fun _ _ _ => trivial) runs
  have sleeps : .sleep 2 ∈ run.2.map Prod.fst := by
    rw [events]
    decide
  obtain ⟨⟨event, slept⟩, member, same⟩ := List.mem_map.mp sleeps
  obtain ⟨before, after, split⟩ := List.append_of_mem member
  have named : event = .sleep 2 := same
  rw [named] at split
  have least : IsLeast {k : Nat | (3 : Int) + 1 ≤ k * 1} 4 := by
    refine ⟨by decide, fun k up => ?_⟩
    have up : (3 : Int) + 1 ≤ k * 1 := up
    omega
  exact ⟨run, reached, events, before, slept, after, split,
    (sleep_and_wakeup (p := 2) (by decide) (by decide) (by decide) rfl (by decide) (by decide)
      (by decide) least reached).2.2 before slept after split⟩

end NTUSP.Threads
