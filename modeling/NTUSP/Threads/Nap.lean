import Mathlib.Order.Bounds.Basic
import NTUSP.Threads.Moments

/-!
# The sleep of a thread

A thread that runs `enroll` is fresh, asleep, ready or past its sleep. `Phase` follows the
events alone, and counts the entries of the scheduler a sleeper has seen. `Meets` says what the
tables hold in each phase; every moment of a step keeps to it.
-/

namespace NTUSP.Threads

open NTUSP.Library

/-- How far a thread is with its sleep, and how many entries it has slept through. -/
inductive Phase where
  | fresh
  | asleep (entries : Nat)
  | ready
  | resumed
  deriving DecidableEq

/-- The sleep of a thread that runs `enroll`; entry `entries` of the scheduler is the one at
which its time is up. -/
structure Nap where
  p : Nat
  args : List Int
  timeSlice : Int
  entries : Nat
  created : p ≠ 0
  inside : p < THREAD_MAX
  ticking : 1 ≤ timeSlice
  rested : 0 ≤ args.getD 2 0
  least : IsLeast {k : Nat | args.getD 2 0 + timeSlice ≤ k * timeSlice} entries

namespace Nap

variable {nap : Nap} {phase : Phase} {s t : State} {n hand k : Nat}

/-- What `enroll` passes to `thread_sleep`. -/
def duration (nap : Nap) : Int := nap.args.getD 2 0 + nap.timeSlice

/-- How the phase moves on. -/
def next (nap : Nap) : Phase → Event → Phase
  | .fresh, .sleep q => if q = nap.p then .asleep 0 else .fresh
  | .asleep entries, .entry =>
      if nap.entries ≤ entries + 1 then .ready else .asleep (entries + 1)
  | .asleep entries, .awake q id =>
      if q ≠ nap.p ∧ id = nap.p then .ready else .asleep entries
  | .ready, .dispatch q => if q = nap.p then .resumed else .ready
  | phase, _ => phase

def monitor (nap : Nap) : Monitor Phase Event := ⟨nap.next⟩

@[simp] theorem monitor_next (nap : Nap) : nap.monitor.next = nap.next := rfl

/-- What the phase says of the tcb, of the entry in the sleeping set and of the ready queue. -/
def Holds (nap : Nap) (s : State) : Phase → Prop
  | .fresh => (s.tcbs nap.p).env = .setup ∧ (s.tcbs nap.p).keepgo = false ∧
      s.sleepingSet[nap.p]? = some none
  | .asleep entries => (s.tcbs nap.p).env = .setup ∧
      s.sleepingSet[nap.p]? = some (some nap.p) ∧ entries < nap.entries ∧
      (s.tcbs nap.p).sleepingTime = nap.duration - entries * nap.timeSlice
  | .ready => (s.tcbs nap.p).env = .setup ∧ (s.tcbs nap.p).keepgo = true ∧
      s.sleepingSet[nap.p]? = some none ∧ nap.p ∈ s.readyQueue.contents
  | .resumed => (s.tcbs nap.p).keepgo = true ∧ s.sleepingSet[nap.p]? = some none

/-- The state agrees with the phase. -/
structure Meets (nap : Nap) (phase : Phase) (s : State) : Prop where
  routine : (s.tcbs nap.p).routine = .enroll
  args : (s.tcbs nap.p).args = nap.args
  timeSlice : s.timeSlice = nap.timeSlice
  holds : nap.Holds s phase

/-- What every moment shows. -/
structure Seen (nap : Nap) (phase : Phase) (event : Event) (s : State) : Prop where
  meets : nap.Meets (nap.next phase event) s
  accounted : ∃ n hand, s.Accounted n hand
  first : event = .sleep nap.p → phase = .fresh
  chosen : event = .dispatch nap.p → s.currentThread = nap.p ∧ s.returned = false ∧
    (phase = .ready → (s.tcbs nap.p).env = .setup)

/-- A moment behind neither `thread_sleep` nor a choice. -/
theorem Seen.aside {event : Event} (meets : nap.Meets (nap.next phase event) s)
    (accounted : ∃ n hand, s.Accounted n hand) (sleep : event ≠ .sleep nap.p)
    (dispatch : event ≠ .dispatch nap.p) : nap.Seen phase event s where
  meets := meets
  accounted := accounted
  first same := absurd same sleep
  chosen same := absurd same dispatch

/-! ## The time -/

/-- The time is up from entry `entries` on. -/
theorem due_iff (nap : Nap) (k : Nat) : nap.duration ≤ k * nap.timeSlice ↔ nap.entries ≤ k := by
  constructor
  · exact fun up => nap.least.2 up
  · intro reached
    have ticking := nap.ticking
    have up : nap.duration ≤ nap.entries * nap.timeSlice := nap.least.1
    refine up.trans (Int.mul_le_mul_of_nonneg_right ?_ (by omega))
    exact Int.ofNat_le.mpr reached

theorem entries_pos (nap : Nap) : 0 < nap.entries := by
  have rested := nap.rested
  have ticking := nap.ticking
  have early : ¬ nap.duration ≤ (0 : Nat) * nap.timeSlice := by
    unfold duration
    simp only [Int.natCast_zero, Int.zero_mul]
    omega
  rw [nap.due_iff] at early
  omega

/-! ## Parts of a step that are not about the thread -/

theorem next_entry (nap : Nap) (entries : Nat) : nap.next (.asleep entries) .entry =
    if nap.entries ≤ entries + 1 then .ready else .asleep (entries + 1) := rfl

theorem next_awake (nap : Nap) (entries q : Nat) (id : Int) :
    nap.next (.asleep entries) (.awake q id) =
      if q ≠ nap.p ∧ id = nap.p then .ready else .asleep entries := rfl

theorem next_dispatch (nap : Nap) (q : Nat) :
    nap.next .ready (.dispatch q) = if q = nap.p then .resumed else .ready := rfl

@[simp] theorem next_waitScan (nap : Nap) (phase : Phase) : nap.next phase .waitScan = phase := by
  cases phase <;> rfl

@[simp] theorem next_settle (nap : Nap) (phase : Phase) : nap.next phase .settle = phase := by
  cases phase <;> rfl

@[simp] theorem next_proceed (nap : Nap) (phase : Phase) : nap.next phase .proceed = phase := by
  cases phase <;> rfl

theorem next_sleep_other (nap : Nap) (phase : Phase) {q : Nat} (other : q ≠ nap.p) :
    nap.next phase (.sleep q) = phase := by
  cases phase with
  | fresh => exact if_neg other
  | asleep => rfl
  | ready => rfl
  | resumed => rfl

theorem next_dispatch_other (nap : Nap) (phase : Phase) {q : Nat} (other : q ≠ nap.p) :
    nap.next phase (.dispatch q) = phase := by
  cases phase with
  | fresh => rfl
  | asleep => rfl
  | ready => exact if_neg other
  | resumed => rfl

theorem Meets.of_rests (meets : nap.Meets phase s) (rests : State.Rests nap.p s t)
    (ready : phase = .ready → nap.p ∈ t.readyQueue.contents) : nap.Meets phase t where
  routine := rests.routine.trans meets.routine
  args := rests.args.trans meets.args
  timeSlice := rests.timeSlice.trans meets.timeSlice
  holds := by
    have holds := meets.holds
    cases phase with
    | fresh =>
      obtain ⟨env, keepgo, vacant⟩ := holds
      exact ⟨rests.env.trans env, rests.keepgo.trans keepgo, rests.slot.trans vacant⟩
    | asleep entries =>
      obtain ⟨env, asleep, early, time⟩ := holds
      exact ⟨rests.env.trans env, rests.slot.trans asleep, early, rests.sleepingTime.trans time⟩
    | ready =>
      obtain ⟨env, keepgo, vacant, _⟩ := holds
      exact ⟨rests.env.trans env, rests.keepgo.trans keepgo, rests.slot.trans vacant, ready rfl⟩
    | resumed =>
      obtain ⟨keepgo, vacant⟩ := holds
      exact ⟨rests.keepgo.trans keepgo, rests.slot.trans vacant⟩

theorem Meets.of_spares (meets : nap.Meets phase s) (spares : State.Spares nap.p s t) :
    nap.Meets phase t := by
  refine meets.of_rests spares.toRests fun ready => spares.ready ?_
  subst ready
  exact meets.holds.2.2.2

/-- Past its sleep the thread may do whatever it does. -/
theorem Meets.of_carries (meets : nap.Meets .resumed s) (carries : State.Carries nap.p s t) :
    nap.Meets .resumed t where
  routine := carries.routine.trans meets.routine
  args := carries.args.trans meets.args
  timeSlice := carries.timeSlice.trans meets.timeSlice
  holds := ⟨carries.keepgo.trans meets.holds.1, carries.slot.trans meets.holds.2⟩

/-- Only a sleeper's entry is filled. -/
theorem Meets.vacant (meets : nap.Meets phase s) (awake : ∀ entries, phase ≠ .asleep entries) :
    s.sleepingSet[nap.p]? = some none := by
  have holds := meets.holds
  cases phase with
  | fresh => exact holds.2.2
  | asleep entries => exact absurd rfl (awake entries)
  | ready => exact holds.2.2.1
  | resumed => exact holds.2

/-- The thread that runs has not slept yet, or is past its sleep. -/
theorem Meets.running (meets : nap.Meets phase s) (acc : s.Accounted n s.currentThread)
    (runs : s.currentThread = nap.p) : phase = .fresh ∨ phase = .resumed := by
  have holds := meets.holds
  cases phase with
  | fresh => exact .inl rfl
  | asleep entries => exact absurd runs.symm (acc.ne_hand_of_slot holds.2.1)
  | ready => exact absurd runs.symm (acc.alive_of_ready holds.2.2.2).2
  | resumed => exact .inr rfl

/-! ## Going to sleep and waking up -/

theorem Meets.awaken (meets : nap.Meets (.asleep k) s) (acc : s.Accounted n hand) {tcb : Tcb}
    (routine : tcb.routine = (s.tcbs nap.p).routine) (args : tcb.args = (s.tcbs nap.p).args)
    (env : tcb.env = (s.tcbs nap.p).env) (keepgo : tcb.keepgo = true) :
    nap.Meets .ready (s.awaken nap.p nap.p tcb) := by
  obtain ⟨setup, asleep, _⟩ := meets.holds
  have own : (s.awaken nap.p nap.p tcb).tcbs nap.p = tcb := Function.update_self ..
  have inside : nap.p < s.sleepingSet.length := (List.getElem?_eq_some_iff.mp asleep).1
  refine
    { routine := by rw [own, routine, meets.routine]
      args := by rw [own, args, meets.args]
      timeSlice := meets.timeSlice
      holds := ⟨by rw [own, env, setup], by rw [own, keepgo], ?_, ?_⟩ }
  · exact List.getElem?_set_self inside
  · rw [acc.awaken_contents asleep]
    exact List.mem_append_right _ List.mem_cons_self

/-- `thread_awake` by the running thread. -/
theorem Meets.threadAwake (meets : nap.Meets phase s) (acc : s.Accounted n s.currentThread)
    {id : Int} (woken : s.threadAwake id = some t) :
    nap.Meets (nap.next phase (.awake s.currentThread id)) t := by
  have spared (awake : ∀ entries, phase ≠ .asleep entries) : nap.Meets phase t :=
    meets.of_spares (acc.threadAwake_spares woken fun _ => meets.vacant awake)
  cases phase with
  | fresh => exact spared nofun
  | ready => exact spared nofun
  | resumed => exact spared nofun
  | asleep entries =>
    obtain ⟨_, asleep, _⟩ := meets.holds
    have other : s.currentThread ≠ nap.p := Ne.symm (acc.ne_hand_of_slot asleep)
    by_cases named : id = nap.p
    · have wakes : nap.next (.asleep entries) (.awake s.currentThread id) = .ready :=
        if_pos ⟨other, named⟩
      rw [wakes]
      rw [named] at woken
      rw [State.threadAwake_asleep asleep woken]
      exact meets.awaken acc rfl rfl rfl rfl
    · have sleeps : nap.next (.asleep entries) (.awake s.currentThread id) = .asleep entries :=
        if_neg fun both => named both.2
      rw [sleeps]
      exact meets.of_spares (acc.threadAwake_spares woken fun same => absurd same named)

/-- The sleeper's turn in the scan. -/
theorem Meets.sleepScanStep (meets : nap.Meets (.asleep k) s) (acc : s.Accounted n hand) :
    nap.Meets (nap.next (.asleep k) .entry) (s.sleepScanStep nap.p) := by
  obtain ⟨env, asleep, early, time⟩ := meets.holds
  have slept : (s.tcbs nap.p).sleepingTime - s.timeSlice =
      nap.duration - ((k + 1 : Nat) : Int) * nap.timeSlice := by
    rw [time, meets.timeSlice, Int.natCast_add, Int.add_mul]
    simp only [Int.natCast_one, Int.one_mul]
    omega
  have up : (s.tcbs nap.p).sleepingTime - s.timeSlice ≤ 0 ↔ nap.entries ≤ k + 1 := by
    rw [slept, ← nap.due_iff]
    omega
  unfold State.sleepScanStep next
  rw [List.getD_eq_getElem?_getD, asleep, Option.getD_some]
  dsimp only
  by_cases due : nap.entries ≤ k + 1
  · rw [if_pos (up.mpr due), if_pos due]
    exact meets.awaken acc rfl rfl rfl rfl
  · rw [if_neg fun passed => due (up.mp passed), if_neg due]
    have own : (s.setTcb nap.p { s.tcbs nap.p with
        sleepingTime := (s.tcbs nap.p).sleepingTime - s.timeSlice }).tcbs nap.p =
        { s.tcbs nap.p with sleepingTime := (s.tcbs nap.p).sleepingTime - s.timeSlice } :=
      Function.update_self ..
    exact
      { routine := by rw [own]; exact meets.routine
        args := by rw [own]; exact meets.args
        timeSlice := meets.timeSlice
        holds := ⟨by rw [own]; exact env, asleep, by omega, by rw [own]; exact slept⟩ }

/-- An entry of the scheduler, up to the end of the loop over the sleeping set. -/
theorem Meets.entry (meets : nap.Meets phase s) (acc : s.Accounted n hand) :
    nap.Meets (nap.next phase .entry) s.createIdle.sleepScan := by
  have entered := meets.of_spares (s.createIdle_spares nap.created)
  have idle := acc.createIdle
  have spared (awake : ∀ entries, phase ≠ .asleep entries) :
      nap.Meets phase s.createIdle.sleepScan :=
    entered.of_spares (idle.sleepScan_spares nap.inside (entered.vacant awake))
  cases phase with
  | fresh => exact spared nofun
  | ready => exact spared nofun
  | resumed => exact spared nofun
  | asleep entries =>
    obtain ⟨before, after, earlier, later, scan⟩ := State.sleepScan_split nap.inside
    have turn := (entered.of_spares (idle.sleepTurns_spares earlier)).sleepScanStep
      (idle.sleepTurns before)
    rw [scan s.createIdle]
    exact turn.of_spares (((idle.sleepTurns before).sleepScanStep nap.p).sleepTurns_spares later)

/-- `thread_sleep` up to its jump. -/
theorem Meets.asleep (meets : nap.Meets .fresh s) (acc : s.Accounted n s.currentThread)
    (runs : s.currentThread = nap.p) : nap.Meets (.asleep 0) (s.asleep nap.duration) := by
  obtain ⟨env, _, vacant⟩ := meets.holds
  have id : s.current.id = nap.p := (acc.ids _).trans runs
  have own : (s.asleep nap.duration).tcbs nap.p =
      { s.tcbs nap.p with sleepingTime := nap.duration } := by
    rw [← runs]
    exact Function.update_self ..
  have inside : nap.p < s.sleepingSet.length := (List.getElem?_eq_some_iff.mp vacant).1
  refine
    { routine := by rw [own]; exact meets.routine
      args := by rw [own]; exact meets.args
      timeSlice := meets.timeSlice
      holds := ⟨by rw [own]; exact env, ?_, nap.entries_pos, by rw [own]; simp⟩ }
  change (s.sleepingSet.set s.current.id (some s.currentThread))[nap.p]? = _
  rw [id, runs]
  exact List.getElem?_set_self inside

/-! ## A pass -/

/-- The choice of the next thread. -/
theorem Meets.dispatch (meets : nap.Meets phase s) (acc : s.Accounted n 0) :
    nap.Meets (nap.next phase (.dispatch s.dispatch.currentThread)) s.dispatch := by
  by_cases chosen : s.dispatch.currentThread = nap.p
  · have rests := acc.dispatch_rests nap.created
    rw [chosen]
    cases phase with
    | fresh => exact meets.of_rests rests nofun
    | asleep entries => exact meets.of_rests rests nofun
    | resumed => exact meets.of_rests rests nofun
    | ready =>
      have goes : nap.next .ready (.dispatch nap.p) = .resumed := if_pos rfl
      rw [goes]
      obtain ⟨_, keepgo, vacant, _⟩ := meets.holds
      exact
        { routine := rests.routine.trans meets.routine
          args := rests.args.trans meets.args
          timeSlice := rests.timeSlice.trans meets.timeSlice
          holds := ⟨rests.keepgo.trans keepgo, rests.slot.trans vacant⟩ }
  · rw [nap.next_dispatch_other phase chosen]
    exact meets.of_spares (acc.dispatch_spares nap.created chosen)

/-- The moments of a pass follow the phase. -/
theorem Meets.pass (meets : nap.Meets phase s) (status : Nat) (enters : s.Enters n status)
    (going : (s.scheduler status).currentThread ≠ 0 → (s.scheduler status).returned = false) :
    nap.monitor.Follows nap.Seen phase (s.passMoments status) ∧
      nap.Meets (nap.monitor.run phase (s.passMoments status)) (s.scheduler status) := by
  have settled := enters.1.settle enters.2
  have slept := meets.entry enters.1.toAccounted
  have scanned : nap.Meets (nap.next phase .entry) s.scans :=
    slept.of_spares enters.1.slept.1.waitScan_spares
  have put := scanned.of_spares enters.settle_spares
  have chosen : nap.Meets (nap.next (nap.next phase .entry)
      (.dispatch (s.scheduler status).currentThread)) (s.scheduler status) := put.dispatch settled
  have entry : nap.Seen phase .entry s.createIdle.sleepScan :=
    .aside slept ⟨n, _, enters.1.slept.1.toAccounted⟩ (by simp) (by simp)
  have waitScan : nap.Seen (nap.next phase .entry) .waitScan s.scans :=
    .aside (by rw [next_waitScan]; exact scanned) ⟨n, _, enters.1.scans.1⟩ (by simp) (by simp)
  have settle : nap.Seen (nap.next phase .entry) .settle (s.scans.settle status) :=
    .aside (by rw [next_settle]; exact put) ⟨n, 0, settled⟩ (by simp) (by simp)
  have dispatch : nap.Seen (nap.next phase .entry)
      (.dispatch (s.scheduler status).currentThread) (s.scheduler status) := by
    refine ⟨chosen, ⟨n, _, settled.dispatch.1⟩, fun same => by simp at same, fun same => ?_⟩
    have own := Event.dispatch.inj same
    refine ⟨own, going (by rw [own]; exact nap.created), fun ready => ?_⟩
    have holds := put.holds
    rw [ready] at holds
    exact (settled.dispatch_rests nap.created).env.trans holds.1
  unfold State.passMoments
  simp only [Monitor.follows_cons, Monitor.follows_nil, Monitor.run_cons, Monitor.run_nil,
    monitor_next, next_waitScan, next_settle, and_true]
  exact ⟨⟨entry, waitScan, settle, dispatch⟩, chosen⟩

/-- A jump hands over, and what runs behind it follows the phase. -/
theorem Meets.jumps {pending : Option Signal} {jump : Jump} (meets : nap.Meets phase s)
    (own : s.currentThread = nap.p → phase = .resumed) (stays : ∀ seconds, jump ≠ .sleep seconds)
    (enters : ∀ pass, s.jumpEntry pending jump = some pass → pass.1.Enters n pass.2)
    (acc : ∃ n hand, (s.jump pending jump).Accounted n hand)
    (going : (s.jump pending jump).currentThread ≠ 0 → (s.jump pending jump).returned = false) :
    nap.monitor.Follows nap.Seen phase (s.jumpMoments pending jump) ∧
      nap.Meets (nap.monitor.run phase (s.jumpMoments pending jump)) (s.jump pending jump) := by
  have of_own {t : State} (carries : State.Carries nap.p s t)
      (spares : nap.p ≠ s.currentThread → State.Spares nap.p s t) : nap.Meets phase t := by
    by_cases runs : s.currentThread = nap.p
    · have resumed := own runs
      subst resumed
      exact meets.of_carries carries
    · exact meets.of_spares (spares (Ne.symm runs))
  unfold State.jumpMoments
  cases found : s.jumpEntry pending jump with
  | none =>
    obtain ⟨k, goes⟩ := State.jump_of_none found
    have next : nap.Meets phase (s.jump pending jump) := by
      rw [goes]
      exact of_own (.of_current rfl rfl rfl rfl rfl rfl rfl) fun other =>
        .of_current rfl other rfl rfl rfl
    simp only [Monitor.follows_cons, Monitor.follows_nil, Monitor.run_cons, Monitor.run_nil,
      monitor_next, next_proceed, and_true]
    exact ⟨.aside (by rwa [next_proceed]) acc (by simp) (by simp), next⟩
  | some pass =>
    have next := of_own (State.jumpEntry_carries found stays) (State.jumpEntry_spares found stays)
    rw [State.jump_of_entry found] at going ⊢
    exact next.pass pass.2 (enters pass found) going

/-- The moments of a step follow the phase. -/
theorem Meets.step {pending : Option Signal} (meets : nap.Meets phase s) (cons : s.Consistent n)
    (steps : s.step pending = some t) :
    nap.monitor.Follows nap.Seen phase (s.moments pending) ∧
      nap.Meets (nap.monitor.run phase (s.moments pending)) t := by
  obtain ⟨v, jump, ran, rfl⟩ := State.body_of_step steps
  obtain ⟨_, _, _, _, moved⟩ := cons.step steps
  have going := moved.consistent.going fun returned => (moved.finished returned).1
  have acc : ∃ n hand, (v.jump pending jump).Accounted n hand :=
    ⟨n, _, moved.consistent.accounted⟩
  have enters : ∀ pass, v.jumpEntry pending jump = some pass → pass.1.Enters n pass.2 :=
    fun _ found => cons.enters (State.ends_of_body ran) found
  unfold State.moments
  rw [ran]
  dsimp only
  cases State.stirs_of_body ran with
  | sleep enroll env first =>
    have unwoken : s.awakeMoments = [] :=
      if_neg fun all => by rw [first] at all; exact absurd all.2.2 (by decide)
    have printed : nap.Meets phase (s.print (.sleep s.current.id (s.current.args.getD 2 0))) :=
      meets.of_spares (.of_tcb rfl rfl rfl fun member => member)
    have slept : nap.Meets (nap.next phase (.sleep s.currentThread))
        ((s.print (.sleep s.current.id (s.current.args.getD 2 0))).asleep
          (s.current.args.getD 2 0 + s.timeSlice)) ∧
        (s.currentThread = nap.p → phase = .fresh) := by
      by_cases runs : s.currentThread = nap.p
      · rcases meets.running cons.accounted runs with rfl | rfl
        · have args : s.current.args = nap.args := by
            rw [State.current, runs]
            exact meets.args
          have sleeps : nap.next .fresh (.sleep s.currentThread) = .asleep 0 := if_pos runs
          rw [args, meets.timeSlice, sleeps]
          rw [args] at printed
          exact ⟨printed.asleep (cons.print _).accounted runs, fun _ => rfl⟩
        · have keepgo := meets.holds.1
          rw [← runs] at keepgo
          exact absurd (first.symm.trans keepgo) (by decide)
      · rw [nap.next_sleep_other phase runs]
        refine ⟨printed.of_spares ?_, fun same => absurd same runs⟩
        exact State.asleep_spares _ _ (cons.accounted.ids _) (Ne.symm runs)
    have entered := enters _ rfl
    have passed := slept.1.pass 2 entered going
    rw [unwoken]
    have asleep : nap.Seen phase (.sleep s.currentThread) _ :=
      ⟨slept.1, ⟨n, _, entered.1.toAccounted⟩, fun same => slept.2 (Event.sleep.inj same),
        fun same => by simp at same⟩
    exact ⟨⟨asleep, passed.1⟩, passed.2⟩
  | @awake woken t jump enroll env awake found alike tcbs stays =>
    have moments : s.awakeMoments =
        [(.awake s.currentThread (s.current.args.getD 3 0), woken)] := by
      unfold State.awakeMoments
      rw [if_pos ⟨enroll, env, awake⟩, found]
    have met := meets.threadAwake cons.accounted found
    have next := cons.threadAwake found
    have own : v.currentThread = nap.p →
        nap.next phase (.awake s.currentThread (s.current.args.getD 3 0)) = .resumed := by
      intro runs
      rw [alike.currentThread, (State.threadAwake_scanned found).1.currentThread] at runs
      rcases meets.running cons.accounted runs with rfl | rfl
      · have keepgo := meets.holds.2.1
        rw [← runs] at keepgo
        exact absurd (awake.symm.trans keepgo) (by decide)
      · rfl
    have jumped := (met.of_spares (alike.spares (congrFun tcbs _))).jumps own stays enters acc going
    rw [moments, State.sleepMoments_stays stays, List.append_nil]
    exact ⟨⟨.aside met ⟨n, _, next.accounted⟩ (by simp) (by simp), jumped.1⟩, jumped.2⟩
  | other elsewhere alike tcbs stays =>
    have unwoken : s.awakeMoments = [] := if_neg fun all => elsewhere ⟨all.1, all.2.1⟩
    have apart : nap.p ≠ s.currentThread ∨ s.current.routine = .enroll := by
      by_cases runs : nap.p = s.currentThread
      · exact .inr (by rw [State.current, ← runs]; exact meets.routine)
      · exact .inl runs
    have own : v.currentThread = nap.p → phase = .resumed := by
      intro runs
      rw [alike.currentThread] at runs
      refine (meets.running cons.accounted runs).resolve_left fun fresh => elsewhere ?_
      subst fresh
      rw [State.current, runs]
      exact ⟨meets.routine, meets.holds.1⟩
    rw [unwoken, State.sleepMoments_stays stays]
    exact (meets.of_spares (alike.spares (tcbs _ apart))).jumps own stays enters acc going

end Nap
end NTUSP.Threads
