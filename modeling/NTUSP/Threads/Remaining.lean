import Mathlib.Algebra.Order.BigOperators.Group.List
import NTUSP.Threads.Moments
import NTUSP.Threads.PmLoop

/-!
# What a thread still has to do

A created thread has a bounded number of stops before it: the turns of its loop, or the yields
and waits of `enroll`. A sleeper counts the seconds it still sleeps as well. No step of another
thread adds to `remaining`, every step of the thread itself takes from it, and so does every
entry of the scheduler while the thread sleeps.
-/

namespace NTUSP.Threads

open NTUSP.Library

/-- The stops of `enroll` from a resume point on, its sleep apart. -/
def Env.stops : Env → Nat
  | .setup => 7
  | .readLock => 6
  | .yield 1 => 5
  | .yield 2 => 4
  | .writeLock => 3
  | .yield _ => 2

theorem Env.stops_le (env : Env) : 2 ≤ env.stops ∧ env.stops ≤ 7 := by
  unfold stops
  split <;> decide

/-- The stops before a thread that has not exited. -/
def Tcb.stops (tcb : Tcb) : Nat :=
  match tcb.routine, tcb.env with
  | .idle, _ => 0
  | .enroll, env => env.stops
  | _, .setup => (tcb.args.getD 0 0).toNat
  | _, _ => (tcb.n - tcb.i).toNat

theorem Tcb.stops_enroll {tcb : Tcb} (enroll : tcb.routine = .enroll) :
    tcb.stops = tcb.env.stops := by
  unfold stops
  rw [enroll]

theorem Tcb.stops_of_kept {old new : Tcb} (kept : old.Kept new) (locals : new.locals = old.locals) :
    new.stops = old.stops := by
  simp only [Tcb.locals, Prod.mk.injEq] at locals
  obtain ⟨n, i, _, _⟩ := locals
  unfold stops
  rw [kept.routine, kept.env, kept.args, n, i]

namespace State

/-- The seconds before a sleeper wakes up, and those of a thread that has yet to go to sleep. -/
def nap (s : State) (p : Nat) : Nat :=
  if s.sleepingSet[p]? = some (some p) then (s.tcbs p).sleepingTime.toNat + 1
  else if (s.tcbs p).routine = .enroll ∧ (s.tcbs p).env = .setup ∧ (s.tcbs p).keepgo = false then
    ((s.tcbs p).args.getD 2 0 + s.timeSlice).toNat + 2
  else 0

/-- What a created thread still has to do. -/
def remaining (s : State) (p : Nat) : Nat :=
  if (s.tcbs p).freed then 0 else (s.tcbs p).stops + s.nap p

variable {n hand p status : Nat} {s t u v : State} {pending : Option Signal} {jump : Jump}

/-! ## The sleep -/

theorem nap_asleep (asleep : s.sleepingSet[p]? = some (some p)) :
    s.nap p = (s.tcbs p).sleepingTime.toNat + 1 :=
  if_pos asleep

/-- Past its sleep a thread naps no more. -/
theorem nap_past (vacant : s.sleepingSet[p]? = some none)
    (past : (s.tcbs p).routine = .enroll → (s.tcbs p).env = .setup → (s.tcbs p).keepgo = true) :
    s.nap p = 0 := by
  unfold nap
  rw [if_neg (by rw [vacant]; nofun), if_neg]
  rintro ⟨enroll, setup, first⟩
  exact absurd (first.symm.trans (past enroll setup)) (by decide)

theorem Rests.nap (rests : Rests p s t) : t.nap p = s.nap p := by
  unfold State.nap
  rw [rests.slot, rests.routine, rests.env, rests.keepgo, rests.args, rests.sleepingTime,
    rests.timeSlice]

theorem Rests.refl (p : Nat) (s : State) : Rests p s s := .of_tcb rfl rfl rfl

theorem Rests.trans (first : Rests p s t) (second : Rests p t u) : Rests p s u where
  toCarries := first.toCarries.trans second.toCarries
  env := second.env.trans first.env
  sleepingTime := second.sleepingTime.trans first.sleepingTime

/-- The entry of a created thread is empty or its own. -/
theorem Shape.slot_cases (shape : s.Shape) (inside : p < THREAD_MAX) :
    s.sleepingSet[p]? = some none ∨ s.sleepingSet[p]? = some (some p) := by
  have bound : p < s.sleepingSet.length := by
    rw [shape.sleeping]
    omega
  cases entry : s.sleepingSet[p] with
  | none => exact .inl (List.getElem?_eq_some_iff.mpr ⟨bound, entry⟩)
  | some q =>
    have found : s.sleepingSet[p]? = some (some q) := List.getElem?_eq_some_iff.mpr ⟨bound, entry⟩
    have own := shape.slot p q found
    subst own
    exact .inr found

theorem awaken_nap (asleep : s.sleepingSet[p]? = some (some p)) {tcb : Tcb}
    (awake : tcb.keepgo = true) : (s.awaken p p tcb).nap p = 0 := by
  have own : (s.awaken p p tcb).tcbs p = tcb := Function.update_self ..
  refine nap_past ?_ fun _ _ => by rw [own]; exact awake
  exact List.getElem?_set_self (List.getElem?_eq_some_iff.mp asleep).1

/-- A turn of the scan takes a time slice from the sleeper, or wakes it up. -/
theorem sleepScanStep_nap (asleep : s.sleepingSet[p]? = some (some p))
    (ticking : 1 ≤ s.timeSlice) : (s.sleepScanStep p).nap p < s.nap p := by
  rw [nap_asleep asleep]
  unfold sleepScanStep
  rw [List.getD_eq_getElem?_getD, asleep, Option.getD_some]
  dsimp only
  by_cases up : (s.tcbs p).sleepingTime - s.timeSlice ≤ 0
  · rw [if_pos up]
    have awake : (s.awaken p p { s.tcbs p with
        sleepingTime := (s.tcbs p).sleepingTime - s.timeSlice, keepgo := true }).nap p = 0 :=
      awaken_nap asleep rfl
    exact Nat.lt_of_le_of_lt (Nat.le_of_eq awake) (Nat.succ_pos _)
  · rw [if_neg up]
    have later : (s.setTcb p { s.tcbs p with
        sleepingTime := (s.tcbs p).sleepingTime - s.timeSlice }).nap p =
        ((s.tcbs p).sleepingTime - s.timeSlice).toNat + 1 := by
      have still : (s.setTcb p { s.tcbs p with
          sleepingTime := (s.tcbs p).sleepingTime - s.timeSlice }).sleepingSet[p]? =
          some (some p) := asleep
      rw [nap_asleep still]
      simp [setTcb]
    rw [later]
    omega

/-! ## A pass -/

/-- A pass leaves alone whoever is awake. -/
theorem Enters.rests (enters : s.Enters n status) (created : p ≠ 0) (inside : p < THREAD_MAX)
    (vacant : s.sleepingSet[p]? = some none) : Rests p s (s.scheduler status) := by
  have idle := s.createIdle_spares created
  have slept := enters.1.createIdle.sleepScan_spares inside (idle.slot.trans vacant)
  have scanned := (idle.trans slept).trans enters.1.slept.1.waitScan_spares
  have settled := scanned.trans enters.settle_spares
  exact settled.toRests.trans ((enters.1.settle enters.2).dispatch_rests created)

/-- A pass takes from what a sleeper has before it. -/
theorem Enters.nap_lt (enters : s.Enters n status) (created : p ≠ 0) (inside : p < THREAD_MAX)
    (asleep : s.sleepingSet[p]? = some (some p)) (ticking : 1 ≤ s.timeSlice) :
    (s.scheduler status).nap p < s.nap p := by
  have idle := s.createIdle_spares created
  have acc := enters.1.createIdle
  obtain ⟨before, after, earlier, later, scan⟩ := sleepScan_split inside
  have first := idle.trans (acc.sleepTurns_spares earlier)
  have turn := sleepScanStep_nap (first.slot.trans asleep) (by rw [first.timeSlice]; exact ticking)
  have rest := ((acc.sleepTurns before).sleepScanStep p).sleepTurns_spares later
  rw [← scan] at rest
  have settled := (rest.trans enters.1.slept.1.waitScan_spares).trans enters.settle_spares
  have last := settled.toRests.trans ((enters.1.settle enters.2).dispatch_rests created)
  calc (s.scheduler status).nap p
      = ((before.foldl sleepScanStep s.createIdle).sleepScanStep p).nap p := last.nap
    _ < (before.foldl sleepScanStep s.createIdle).nap p := turn
    _ = s.nap p := first.toRests.nap

/-- A pass adds to no thread. -/
theorem Enters.nap_le (enters : s.Enters n status) (created : p ≠ 0) (inside : p < THREAD_MAX)
    (ticking : 1 ≤ s.timeSlice) : (s.scheduler status).nap p ≤ s.nap p := by
  rcases enters.1.toShape.slot_cases inside with vacant | asleep
  · exact Nat.le_of_eq (enters.rests created inside vacant).nap
  · exact Nat.le_of_lt (enters.nap_lt created inside asleep ticking)

/-- The thread that exits is freed by the pass. -/
theorem Enters.freed (enters : s.Enters n 3) (created : s.currentThread ≠ 0) :
    ((s.scheduler 3).tcbs s.currentThread).freed = true := by
  have kept := (enters.1.scheduler_kept enters.2).tcb s.currentThread created
  rw [kept.freed]
  simp [exited, setCurrent, setTcb]

/-! ## Another thread -/

/-- Up to the jump nothing of another thread changes, unless it is woken up. -/
theorem Stirs.other_cases (stirs : s.Stirs v jump) (acc : s.Accounted n s.currentThread)
    (inside : p < THREAD_MAX) (apart : p ≠ s.currentThread) :
    Rests p s v ∨ s.sleepingSet[p]? = some (some p) ∧ v.sleepingSet[p]? = some none ∧
      (v.tcbs p).keepgo = true := by
  cases stirs with
  | sleep => exact .inl (.of_tcb rfl rfl rfl)
  | other _ alike tcbs => exact .inl (alike.spares (tcbs p (.inl apart))).toRests
  | @awake woken _ _ _ _ _ found alike tcbs =>
    have same : Rests p woken v := (alike.spares (congrFun tcbs p)).toRests
    rcases acc.toShape.slot_cases inside with vacant | asleep
    · exact .inl ((acc.threadAwake_spares found fun _ => vacant).toRests.trans same)
    by_cases named : s.current.args.getD 3 0 = p
    · rw [named] at found
      have wakes := threadAwake_asleep asleep found
      subst wakes
      have bound : p < s.sleepingSet.length := (List.getElem?_eq_some_iff.mp asleep).1
      refine .inr ⟨asleep, same.slot.trans (List.getElem?_set_self bound), ?_⟩
      rw [same.keepgo]
      exact congrArg Tcb.keepgo (Function.update_self p { s.tcbs p with keepgo := true } s.tcbs)
    · exact .inl ((acc.threadAwake_spares found fun id => absurd id named).toRests.trans same)

/-- The body of a step neither chooses a thread nor changes the time slice. -/
theorem Stirs.globals (stirs : s.Stirs v jump) :
    v.currentThread = s.currentThread ∧ v.timeSlice = s.timeSlice := by
  cases stirs with
  | sleep => exact ⟨rfl, rfl⟩
  | other _ alike => exact ⟨alike.currentThread, alike.timeSlice⟩
  | awake _ _ _ found alike =>
    rw [alike.currentThread, alike.timeSlice]
    rcases threadAwake_cases found with same | ⟨q, _, same⟩ <;> rw [same] <;> exact ⟨rfl, rfl⟩

theorem jumpEntry_timeSlice {pass : State × Nat} (found : s.jumpEntry pending jump = some pass) :
    pass.1.timeSlice = s.timeSlice := by
  cases jump with
  | yield k =>
    obtain ⟨signal, _, rfl⟩ := Option.map_eq_some_iff.mp found
    rfl
  | exit | sleep | park =>
    rw [← Option.some.inj found]
    rfl

/-- The running thread spares the others on its way into the scheduler. -/
theorem jumpEntry_other {pass : State × Nat} (found : s.jumpEntry pending jump = some pass)
    (shape : pass.1.Shape) (apart : p ≠ s.currentThread) : Spares p s pass.1 := by
  cases jump with
  | sleep seconds =>
    rw [← Option.some.inj found] at shape ⊢
    have id : ((s.asleep seconds).tcbs s.currentThread).id = s.currentThread := shape.ids _
    refine s.asleep_spares seconds ?_ apart
    simpa [asleep, setCurrent, setTcb] using id
  | yield | exit | park =>
    refine jumpEntry_spares found ?_ apart
    rintro _ ⟨⟩

theorem entry_of_body (ran : s.body = some (v, jump)) :
    s.entry pending = v.jumpEntry pending jump := by
  unfold entry
  rw [ran]
  rfl

/-- A step adds to no thread that does not run, and takes from a sleeper if it enters the
scheduler. -/
theorem Consistent.step_nap (cons : s.Consistent n) (steps : s.step pending = some t)
    (created : p ≠ 0) (inside : p < THREAD_MAX) (apart : p ≠ s.currentThread)
    (ticking : 1 ≤ s.timeSlice) : t.nap p ≤ s.nap p ∧
      (s.sleepingSet[p]? = some (some p) → (s.entry pending).isSome → t.nap p < s.nap p) := by
  obtain ⟨v, jump, ran, rfl⟩ := body_of_step steps
  have stirs := stirs_of_body ran
  obtain ⟨current, slice⟩ := stirs.globals
  have body := stirs.other_cases cons.accounted inside apart
  have woken : s.sleepingSet[p]? = some (some p) → v.sleepingSet[p]? = some none →
      (v.tcbs p).keepgo = true → v.nap p < s.nap p := by
    intro asleep vacant awake
    rw [nap_past vacant fun _ _ => awake, nap_asleep asleep]
    exact Nat.succ_pos _
  have before : v.nap p ≤ s.nap p := by
    rcases body with same | ⟨asleep, vacant, awake⟩
    · exact Nat.le_of_eq same.nap
    · exact Nat.le_of_lt (woken asleep vacant awake)
  rw [entry_of_body ran]
  cases found : v.jumpEntry pending jump with
  | none =>
    obtain ⟨k, goes⟩ := jump_of_none found
    have last : Rests p v (v.jump pending jump) := by
      rw [goes]
      exact .of_tcb (Function.update_of_ne (current ▸ apart) ..) rfl rfl
    rw [last.nap]
    exact ⟨before, fun _ enters => by simp at enters⟩
  | some pass =>
    have enters := cons.enters (ends_of_body ran) found
    have spared := (jumpEntry_other found enters.1.toShape (current ▸ apart)).toRests
    have still : 1 ≤ pass.1.timeSlice := by
      rw [jumpEntry_timeSlice found, slice]
      exact ticking
    have pass_le := enters.nap_le created inside still
    rw [jump_of_entry found]
    rw [spared.nap] at pass_le
    refine ⟨pass_le.trans before, fun asleep _ => ?_⟩
    rcases body with same | ⟨_, vacant, awake⟩
    · have last := enters.nap_lt created inside ((spared.slot.trans same.slot).trans asleep) still
      rw [spared.nap] at last
      exact Nat.lt_of_lt_of_le last before
    · exact Nat.lt_of_le_of_lt pass_le (woken asleep vacant awake)

/-! ## The running thread -/

/-- The running thread is awake, and stays so unless it goes to sleep. -/
theorem Consistent.step_vacant (cons : s.Consistent n) (pending : Option Signal)
    (ran : s.body = some (v, jump))
    (stays : ∀ seconds, jump ≠ .sleep seconds) (created : s.currentThread ≠ 0)
    (inside : s.currentThread < THREAD_MAX) :
    s.sleepingSet[s.currentThread]? = some none ∧
      (v.jump pending jump).sleepingSet[s.currentThread]? = some none := by
  have vacant : s.sleepingSet[s.currentThread]? = some none :=
    (cons.accounted.toShape.slot_cases inside).resolve_right fun asleep =>
      cons.accounted.ne_hand_of_slot asleep rfl
  refine ⟨vacant, ?_⟩
  have body : v.sleepingSet[s.currentThread]? = some none := by
    cases stirs_of_body ran with
    | sleep => exact vacant
    | other _ alike =>
      rw [alike.sleepingSet]
      exact vacant
    | awake _ _ _ woken alike =>
      rw [alike.sleepingSet]
      exact (cons.accounted.threadAwake_spares woken fun _ => vacant).slot.trans vacant
  cases found : v.jumpEntry pending jump with
  | none =>
    obtain ⟨k, goes⟩ := jump_of_none found
    rw [goes]
    exact body
  | some pass =>
    have enters := cons.enters (ends_of_body ran) found
    have entered := (jumpEntry_carries (p := s.currentThread) found stays).slot.trans body
    rw [jump_of_entry found]
    exact (enters.rests created inside entered).slot.trans entered

/-- The resume points of `enroll` come in order. -/
theorem LockStep.stops_lt {env : Env} {exits : Bool} {queue : TcbQueue}
    {readCount writeCount : Int} (lock : s.LockStep env exits queue readCount writeCount)
    (enroll : s.current.routine = .enroll)
    (past : s.current.env = .setup → s.current.keepgo = true) (living : exits = false) :
    env ≠ .setup ∧ env.stops < s.current.env.stops := by
  cases lock with
  | compute sequential => exact absurd enroll sequential
  | finish sequential => exact absurd enroll sequential
  | sleep _ setup first => exact absurd (first.symm.trans (past setup)) (by decide)
  | readPark _ env => rw [env]; exact ⟨nofun, by decide⟩
  | readTake _ env => rw [env]; exact ⟨nofun, by decide⟩
  | readResume _ env => rw [env]; exact ⟨nofun, by decide⟩
  | release _ env => rw [env]; exact ⟨nofun, by decide⟩
  | writePark _ env => rw [env]; exact ⟨nofun, by decide⟩
  | writeTake _ env => rw [env]; exact ⟨nofun, by decide⟩
  | writeResume _ env => rw [env]; exact ⟨nofun, by decide⟩
  | leave => cases living

/-- The head of the loop makes one of the turns that are left. -/
theorem loopHead_stops (looping : s.current.routine = .fibonacci ∨ s.current.routine = .pm)
    (some_left : 0 < s.current.stops) :
    s.loopHead.current.i ≤ s.loopHead.current.n ∧
      (s.loopHead.current.n - s.loopHead.current.i).toNat + 1 = s.current.stops := by
  by_cases env : s.current.env = .setup
  · have left : s.current.stops = (s.current.args.getD 0 0).toNat := by
      unfold Tcb.stops
      rw [env]
      rcases looping with routine | routine <;> rw [routine]
    rw [loopHead_setup env, setCurrent_current]
    dsimp only
    omega
  · have left : s.current.stops = (s.current.n - s.current.i).toNat := by
      unfold Tcb.stops
      rcases looping with routine | routine <;> rw [routine] <;> cases at_env : s.current.env <;>
        first | rfl | exact absurd at_env env
    rw [loopHead_later env, setCurrent_current]
    dsimp only
    omega

/-- What the body of a turn jumps with. -/
theorem body_turn (looping : s.current.routine = .fibonacci ∨ s.current.routine = .pm)
    (ran : s.body = some (v, jump)) : jump = v.turnJump ∧
      v.currentThread = s.currentThread ∧
      v.current.n = s.loopHead.current.n ∧ v.current.i = s.loopHead.current.i := by
  have same : s.loopHead.currentThread = s.currentThread := by
    unfold loopHead
    split <;> rfl
  unfold body at ran
  split at ran
  · cases ran
  rcases looping with routine | routine
  · rw [routine] at ran
    cases ran
    refine ⟨rfl, same, ?_⟩
    unfold fibonacciRound
    dsimp only
    split <;> simp [State.print, current, setCurrent, setTcb]
  · rw [routine] at ran
    cases ran
    refine ⟨rfl, same, ?_⟩
    unfold pmRound
    dsimp only
    split <;> simp [State.print, current, setCurrent, setTcb]

/-- A turn that is not the last one ends in the yield of the loop. -/
theorem LockStep.resume {env : Env} {exits : Bool} {queue : TcbQueue}
    {readCount writeCount : Int} (lock : s.LockStep env exits queue readCount writeCount)
    (sequential : s.current.routine ≠ .enroll) (living : exits = false) : env = .yield 0 := by
  cases lock with
  | compute => rfl
  | finish => cases living
  | sleep enroll => exact absurd enroll sequential
  | readPark enroll => exact absurd enroll sequential
  | readTake enroll => exact absurd enroll sequential
  | readResume enroll => exact absurd enroll sequential
  | release enroll => exact absurd enroll sequential
  | writePark enroll => exact absurd enroll sequential
  | writeTake enroll => exact absurd enroll sequential
  | writeResume enroll => exact absurd enroll sequential
  | leave enroll => exact absurd enroll sequential

variable {env : Env} {queue : TcbQueue}

/-- A turn of the loop that does not exit leaves one turn less. -/
theorem Moved.turn (moved : s.Moved n t env false queue) (cons : s.Consistent n)
    (resume : env = .yield 0) (created : s.currentThread ≠ 0)
    (looping : s.current.routine = .fibonacci ∨ s.current.routine = .pm)
    (some_left : 0 < s.current.stops) (ran : s.body = some (v, jump))
    (jumps : t = v.jump pending jump) :
    0 < (t.tcbs s.currentThread).stops ∧ (t.tcbs s.currentThread).stops < s.current.stops := by
  obtain ⟨jumped, same, bound, turn⟩ := body_turn looping ran
  obtain ⟨below, left⟩ := loopHead_stops looping some_left
  have locals : (t.tcbs s.currentThread).locals = v.current.locals := by
    rw [jumps, jump_locals created, current, same]
  simp only [Tcb.locals, Prod.mk.injEq] at locals
  have more : v.current.i ≠ v.current.n := by
    intro last
    have exits : jump = .exit := by
      rw [jumped]
      exact if_pos last
    subst exits
    have found : v.jumpEntry pending .exit = some (v.print (.exit v.current.id), 3) := rfl
    have enters : (v.print (.exit v.current.id)).Enters n 3 := cons.enters (ends_of_body ran) found
    have here : (v.print (.exit v.current.id)).currentThread = s.currentThread := same
    have freed := enters.freed (by rw [here]; exact created)
    have living := moved.freed created
    rw [jumps, jump_of_entry found] at living
    rw [here] at freed
    dsimp only at living
    exact absurd (living.symm.trans freed) (by decide)
  have now : (t.tcbs s.currentThread).stops =
      ((t.tcbs s.currentThread).n - (t.tcbs s.currentThread).i).toNat := by
    unfold Tcb.stops
    rw [moved.routine created, moved.env created, resume]
    rcases looping with routine | routine <;> rw [routine]
  rw [now, locals.1, locals.2.1, bound, turn]
  rw [bound, turn] at more
  omega

/-- Going to sleep is part of the nap. -/
theorem Consistent.sleep_nap (cons : s.Consistent n) (pending : Option Signal)
    (created : s.currentThread ≠ 0)
    (inside : s.currentThread < THREAD_MAX) (enroll : s.current.routine = .enroll)
    (setup : s.current.env = .setup) (first : s.current.keepgo = false)
    (ran : s.body = some (v, jump)) (ticking : 1 ≤ s.timeSlice) :
    (v.jump pending jump).nap s.currentThread < s.nap s.currentThread := by
  have vacant : s.sleepingSet[s.currentThread]? = some none :=
    (cons.accounted.toShape.slot_cases inside).resolve_right fun asleep =>
      cons.accounted.ne_hand_of_slot asleep rfl
  have before : s.nap s.currentThread = (s.current.args.getD 2 0 + s.timeSlice).toNat + 2 := by
    unfold nap
    rw [if_neg (by rw [vacant]; nofun)]
    exact if_pos ⟨enroll, setup, first⟩
  have ends := ends_of_body ran
  cases stirs_of_body ran with
  | other elsewhere => exact absurd ⟨enroll, setup⟩ elsewhere
  | awake _ _ awake => exact absurd (first.symm.trans awake) (by decide)
  | sleep =>
    let v := s.print (.sleep s.current.id (s.current.args.getD 2 0))
    let seconds := s.current.args.getD 2 0 + s.timeSlice
    have found : v.jumpEntry pending (.sleep seconds) = some (v.asleep seconds, 2) := rfl
    have enters : (v.asleep seconds).Enters n 2 := cons.enters ends found
    have id : s.current.id = s.currentThread := cons.accounted.ids _
    have bound : s.currentThread < s.sleepingSet.length := (List.getElem?_eq_some_iff.mp vacant).1
    have asleep : (v.asleep seconds).sleepingSet[s.currentThread]? =
        some (some s.currentThread) := by
      change (s.sleepingSet.set s.current.id (some s.currentThread))[s.currentThread]? = _
      rw [id]
      exact List.getElem?_set_self bound
    have time : ((v.asleep seconds).tcbs s.currentThread).sleepingTime = seconds := by
      have own : (v.asleep seconds).tcbs s.currentThread =
          { v.current with sleepingTime := seconds } := Function.update_self ..
      rw [own]
    have less := enters.nap_lt created inside asleep ticking
    rw [nap_asleep asleep, time] at less
    have after : (v.jump pending (.sleep seconds)).nap s.currentThread < seconds.toNat + 1 := by
      rw [jump_of_entry found]
      exact less
    exact Nat.lt_trans after (by omega)

/-- A step of a created thread brings it nearer to its exit. -/
theorem Consistent.step_own (cons : s.Consistent n) (steps : s.step pending = some t)
    (created : s.currentThread ≠ 0) (some_left : 0 < s.current.stops)
    (ticking : 1 ≤ s.timeSlice) :
    t.remaining s.currentThread < s.remaining s.currentThread ∧
      ((t.tcbs s.currentThread).freed = false → 0 < (t.tcbs s.currentThread).stops) := by
  obtain ⟨v, jump, ran, jumps⟩ := body_of_step steps
  obtain ⟨env, exits, queue, lock, moved⟩ := cons.step steps
  have alive := cons.running.resolve_left created
  have inside : s.currentThread < THREAD_MAX := Nat.lt_of_le_of_lt alive.2.1 cons.accounted.few
  have before : s.remaining s.currentThread = s.current.stops + s.nap s.currentThread :=
    if_neg (by rw [alive.2.2]; decide)
  cases exits with
  | true =>
    have freed := moved.freed created
    have after : t.remaining s.currentThread = 0 := if_pos freed
    refine ⟨by omega, fun living => absurd (living.symm.trans freed) (by decide)⟩
  | false =>
    have living := moved.freed created
    have after : t.remaining s.currentThread =
        (t.tcbs s.currentThread).stops + t.nap s.currentThread :=
      if_neg (by rw [living]; decide)
    have routine := moved.routine created
    by_cases enroll : s.current.routine = .enroll
    · have stops : (t.tcbs s.currentThread).stops = env.stops := by
        rw [Tcb.stops_enroll (routine.trans enroll), moved.env created]
      have now : s.current.stops = s.current.env.stops := Tcb.stops_enroll enroll
      have range := env.stops_le
      refine ⟨?_, fun _ => by omega⟩
      by_cases sleeps : s.current.env = .setup ∧ s.current.keepgo = false
      · have nap := cons.sleep_nap pending created inside enroll sleeps.1 sleeps.2 ran
          ticking
        rw [← jumps] at nap
        have most : s.current.env.stops = 7 := by rw [sleeps.1]; rfl
        omega
      · have past : s.current.env = .setup → s.current.keepgo = true := fun setup => by
          rw [← Bool.not_eq_false]
          exact fun first => sleeps ⟨setup, first⟩
        have stays : ∀ seconds, jump ≠ .sleep seconds := by
          cases stirs_of_body ran with
          | sleep _ env first => exact absurd ⟨env, first⟩ sleeps
          | awake _ _ _ _ _ _ stays => exact stays
          | other _ _ _ stays => exact stays
        obtain ⟨elsewhere, fewer⟩ := lock.stops_lt enroll past rfl
        have vacant := (cons.step_vacant pending ran stays created inside).2
        have nap : t.nap s.currentThread = 0 := by
          rw [← jumps] at vacant
          exact nap_past vacant fun _ setup => absurd ((moved.env created).symm.trans setup) elsewhere
        omega
    · have looping : s.current.routine = .fibonacci ∨ s.current.routine = .pm := by
        cases kind : s.current.routine with
        | fibonacci => exact .inl rfl
        | pm => exact .inr rfl
        | enroll => exact absurd kind enroll
        | idle =>
          unfold Tcb.stops at some_left
          rw [kind] at some_left
          exact absurd some_left (Nat.lt_irrefl 0)
      obtain ⟨more, fewer⟩ :=
        moved.turn cons (lock.resume enroll rfl) created looping some_left ran jumps
      have stays : ∀ seconds, jump ≠ .sleep seconds := by
        rw [(body_turn looping ran).1]
        exact turnJump_stays v
      have vacant := (cons.step_vacant pending ran stays created inside).2
      have nap : t.nap s.currentThread = 0 := by
        rw [← jumps] at vacant
        exact nap_past vacant fun enrolls => absurd (routine.symm.trans enrolls) enroll
      refine ⟨?_, fun _ => more⟩
      omega

end State
end NTUSP.Threads
