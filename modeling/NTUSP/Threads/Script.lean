import NTUSP.Threads.Classes
import NTUSP.Threads.Remaining
import NTUSP.Threads.RoundRobin
import NTUSP.Threads.Values

/-!
# What a thread in `enroll` prints

`script` is the output of one call of `enroll` from its sleep to its exit, for either class.
Whatever the signals are and however often the thread is parked, it has printed a part of the
script that its resume point tells, and the whole script once it has exited.
-/

namespace NTUSP.Threads

open NTUSP.Library

/-- A line that thread `p` prints from its routine. -/
def Print.spokenBy (p : Nat) : Print → Bool
  | .setUp _ _ | .caught _ => false
  | .idle id | .fibonacci id _ _ | .pm id _ _ | .sleep id _ | .acquireRead id
  | .releaseRead id _ _ | .acquireWrite id _ | .releaseWrite id | .exit id => id == p

/-- The lines of `enroll` for thread `p`, which ends up in the class told. -/
def script (seconds pp ps : Int) (p : Nat) (pjClass : Bool) : List Print :=
  [.sleep p seconds, .acquireRead p, .releaseRead p pp ps, .acquireWrite p pjClass,
    .releaseWrite p, .exit p]

/-- The script of a thread with these arguments. -/
def scriptOf (args : List Int) (qP qS : Int) : Nat → Bool → List Print :=
  script (args.getD 2 0) (args.getD 0 0 * qP) (args.getD 1 0 * qS)

/-- The lines of `enroll` up to a resume point behind its sleep. -/
def Env.said : Env → Nat
  | .setup | .readLock => 1
  | .yield 1 => 2
  | .yield 2 | .writeLock => 3
  | .yield _ => 4

theorem Env.said_last {k : Nat} (notFirst : k ≠ 1) (notSecond : k ≠ 2) : (yield k).said = 4 := by
  match k, notFirst, notSecond with
  | 0, _, _ => rfl
  | k + 3, _, _ => rfl

namespace State

/-- What thread `p` has printed since its creation. -/
def lines (s : State) (p : Nat) : List Print := s.out.filter (Print.spokenBy p)

/-- The thread has called `thread_sleep`. -/
def slept (s : State) (p : Nat) : Bool :=
  (s.tcbs p).keepgo || s.sleepingSet[p]? == some (some p)

/-- How many lines of the script are out. -/
def said (s : State) (p : Nat) : Nat :=
  if (s.tcbs p).freed then 6
  else if (s.tcbs p).env = .setup ∧ s.slept p = false then 0
  else (s.tcbs p).env.said

variable {n p status : Nat} {s t v : State} {pending : Option Signal} {jump : Jump} {env : Env}
  {exits : Bool} {queue : TcbQueue}

/-! ## The sleep -/

theorem slept_of_vacant (vacant : s.sleepingSet[p]? = some none) :
    s.slept p = (s.tcbs p).keepgo := by
  unfold slept
  rw [vacant]
  exact Bool.or_false _

theorem slept_of_asleep (asleep : s.sleepingSet[p]? = some (some p)) : s.slept p = true := by
  unfold slept
  rw [asleep, beq_self_eq_true, Bool.or_true]

theorem Rests.slept (rests : Rests p s t) : t.slept p = s.slept p := by
  unfold State.slept
  rw [rests.keepgo, rests.slot]

theorem sleepScanStep_slept (asleep : s.sleepingSet[p]? = some (some p)) :
    (s.sleepScanStep p).slept p = true := by
  rcases s.sleepScanStep_cases p with skipped | ⟨q, time, found, counted | woken⟩
  · rw [skipped]
    exact slept_of_asleep asleep
  · rw [counted]
    exact slept_of_asleep asleep
  · rw [asleep] at found
    obtain rfl : p = q := Option.some.inj (Option.some.inj found)
    have own : (s.awaken p p { s.tcbs p with sleepingTime := time, keepgo := true }).tcbs p =
        { s.tcbs p with sleepingTime := time, keepgo := true } := Function.update_self ..
    rw [woken]
    unfold slept
    rw [own, Bool.true_or]

/-- A pass does not make a thread sleep, and nobody forgets that it has slept. -/
theorem Enters.slept (enters : s.Enters n status) (created : p ≠ 0) (inside : p < THREAD_MAX) :
    (s.scheduler status).slept p = s.slept p := by
  rcases enters.1.toShape.slot_cases inside with vacant | asleep
  · exact (enters.rests created inside vacant).slept
  · have idle := s.createIdle_spares created
    have acc := enters.1.createIdle
    obtain ⟨before, after, earlier, later, scan⟩ := sleepScan_split inside
    have first := idle.trans (acc.sleepTurns_spares earlier)
    have turn := sleepScanStep_slept (first.slot.trans asleep)
    have rest := ((acc.sleepTurns before).sleepScanStep p).sleepTurns_spares later
    rw [← scan] at rest
    have settled := (rest.trans enters.1.slept.1.waitScan_spares).trans enters.settle_spares
    have last := settled.toRests.trans ((enters.1.settle enters.2).dispatch_rests created)
    have slept : (s.scheduler status).slept p = true := last.slept.trans turn
    rw [slept, slept_of_asleep asleep]

/-- Another thread does not change whether a thread has slept. -/
theorem Consistent.step_slept (cons : s.Consistent n) (steps : s.step pending = some t)
    (created : p ≠ 0) (inside : p < THREAD_MAX) (apart : p ≠ s.currentThread) :
    t.slept p = s.slept p := by
  obtain ⟨v, jump, ran, rfl⟩ := body_of_step steps
  have current := (stirs_of_body ran).globals.1
  have body : v.slept p = s.slept p := by
    rcases (stirs_of_body ran).other_cases cons.accounted inside apart with
      same | ⟨asleep, vacant, awake⟩
    · exact same.slept
    · rw [slept_of_asleep asleep, slept_of_vacant vacant, awake]
  rw [← body]
  cases found : v.jumpEntry pending jump with
  | none =>
    obtain ⟨k, goes⟩ := jump_of_none found
    have last : Rests p v (v.jump pending jump) := by
      rw [goes]
      exact .of_tcb (Function.update_of_ne (current ▸ apart) ..) rfl rfl
    exact last.slept
  | some pass =>
    have enters := cons.enters (ends_of_body ran) found
    rw [jump_of_entry found, enters.slept created inside]
    exact (jumpEntry_other found enters.1.toShape (current ▸ apart)).toRests.slept

/-! ## The lines -/

theorem lines_print (s : State) (line : Print) (p : Nat) :
    (s.print line).lines p = s.lines p ++ if line.spokenBy p then [line] else [] := by
  simp only [lines, State.print, List.filter_append]
  cases spoken : line.spokenBy p <;> simp [spoken]

theorem Quiet.lines (quiet : s.Quiet t) (p : Nat) : t.lines p = s.lines p := by
  obtain ⟨more, printed, aside⟩ := quiet.out
  have none : more.filter (Print.spokenBy p) = [] := by
    refine List.filter_eq_nil_iff.mpr fun line member => ?_
    have out := aside line member
    cases line with
    | setUp | caught => exact Bool.false_ne_true
    | _ => cases out
  simp only [State.lines, printed, List.filter_append, none, List.append_nil]

/-- A jump prints nothing but the exit. -/
theorem jump_lines (s : State) (pending : Option Signal) (jump : Jump) (p : Nat) :
    (s.jump pending jump).lines p = s.lines p ++
      match jump with
      | .exit => if s.current.id = p then [.exit p] else []
      | _ => [] := by
  cases jump with
  | yield k => exact ((s.threadYield_quiet k pending).lines p).trans (List.append_nil _).symm
  | sleep seconds => exact ((s.threadSleep_quiet seconds).lines p).trans (List.append_nil _).symm
  | park env resource => exact ((s.park_quiet env resource).lines p).trans (List.append_nil _).symm
  | exit =>
    refine (Quiet.lines (scheduler_quiet (s.print (.exit s.current.id)) 3) p).trans ?_
    rw [lines_print]
    simp only [Print.spokenBy, beq_iff_eq]
    split
    · rename_i own
      rw [own]
    · rfl

theorem lines_print_other {line : Print} (other : line.spokenBy p = false) :
    (s.print line).lines p = s.lines p := by
  rw [lines_print, other]
  exact List.append_nil _

theorem lines_print_own {line : Print} (own : line.spokenBy p = true) :
    (s.print line).lines p = s.lines p ++ [line] := by
  rw [lines_print, own]
  rfl

/-- A thread prints under its own id. -/
theorem Consistent.spoken_false (cons : s.Consistent n) (apart : p ≠ s.currentThread) :
    (s.current.id == p) = false := by
  have id : s.current.id = s.currentThread := cons.accounted.ids _
  rw [id]
  exact beq_false_of_ne (Ne.symm apart)

theorem Consistent.enrollJump_lines (cons : s.Consistent n) (ran : s.enrollJump = some (v, jump))
    (apart : p ≠ s.currentThread) : v.lines p = s.lines p := by
  have other := cons.spoken_false apart
  unfold enrollJump at ran
  split at ran
  · dsimp only at ran
    split at ran
    · cases ran
      exact lines_print_other other
    · obtain ⟨woken, found, ends⟩ := Option.map_eq_some_iff.mp ran
      have quiet := (threadAwake_quiet found).lines p
      have current := (threadAwake_scanned found).1.currentThread
      unfold readLockJump at ends
      split at ends
      · cases ends
        exact quiet
      · cases ends
        refine (lines_print_other ?_).trans quiet
        exact (cons.threadAwake found).spoken_false (current ▸ apart)
  · cases ran
    exact lines_print_other other
  · cases ran
    exact lines_print_other other
  · have ends := Option.some.inj ran
    unfold writeLockJump at ends
    split at ends
    · cases ends
      rfl
    · cases ends
      exact lines_print_other other
  · cases ran
    exact lines_print_other other
  · cases ran
    exact lines_print_other other

/-- Up to its jump a thread prints nothing under the id of another one. -/
theorem Consistent.body_lines (cons : s.Consistent n) (ran : s.body = some (v, jump))
    (apart : p ≠ s.currentThread) : v.lines p = s.lines p := by
  have other := cons.spoken_false apart
  obtain ⟨tcb, kept, head⟩ := s.loopHead_kept
  have id : (s.loopHead.current.id == p) = false := by
    rw [head, setCurrent_current, kept.id]
    exact other
  have same : s.loopHead.lines p = s.lines p := by
    rw [head]
    rfl
  unfold State.body at ran
  split at ran
  · cases ran
  split at ran
  · cases ran
    exact lines_print_other other
  · cases ran
    refine (lines_print_other ?_).trans same
    exact id
  · cases ran
    refine (lines_print_other ?_).trans same
    exact id
  · exact cons.enrollJump_lines ran apart

/-! ## The running thread -/

end State

/-- Where a jump lets its thread resume. -/
def Jump.resume (before : Env) : Jump → Env
  | .yield k => .yield k
  | .park env _ => env
  | _ => before

def Jump.exits : Jump → Bool
  | .exit => true
  | _ => false

/-- The lines of the script behind a jump. -/
def Jump.said : Jump → Nat
  | .exit => 6
  | jump => (jump.resume .setup).said

namespace State

variable {n p : Nat} {s t v : State} {pending : Option Signal} {jump : Jump}

/-- A jump saves the resume point of its thread, and only `thread_exit` frees it. -/
theorem Consistent.jump_own (cons : s.Consistent n) (pending : Option Signal)
    (ran : s.body = some (v, jump)) (created : s.currentThread ≠ 0)
    (living : v.current.freed = false) :
    ((v.jump pending jump).tcbs s.currentThread).env = jump.resume v.current.env ∧
      ((v.jump pending jump).tcbs s.currentThread).freed = jump.exits := by
  have current := (stirs_of_body ran).globals.1
  rw [← current] at created ⊢
  cases found : v.jumpEntry pending jump with
  | none =>
    cases jump with
    | yield k =>
      rw [State.jump, Option.map_eq_none_iff.mp found]
      exact ⟨congrArg Tcb.env (v.setCurrent_current _),
        (congrArg Tcb.freed (v.setCurrent_current _)).trans living⟩
    | exit | sleep | park => cases found
  | some pass =>
    have enters := cons.enters (ends_of_body ran) found
    have kept := (enters.1.scheduler_kept enters.2).tcb _ created
    rw [jump_of_entry found, kept.env, kept.freed]
    unfold State.current at living
    cases jump with
    | yield k =>
      obtain ⟨signal, _, rfl⟩ := Option.map_eq_some_iff.mp found
      simp [exited, Jump.resume, Jump.exits, State.print, State.setCurrent, setTcb, State.current,
        living]
    | exit =>
      rw [← Option.some.inj found]
      simp [exited, Jump.resume, Jump.exits, State.print, State.setCurrent, setTcb, State.current]
    | sleep seconds =>
      rw [← Option.some.inj found]
      simp [exited, Jump.resume, Jump.exits, asleep, State.setCurrent, setTcb, State.current, living]
    | park env resource =>
      have asks : resource ≠ 3 := by
        cases ends_of_body ran with
        | readPark | writePark => decide
      rw [← Option.some.inj found]
      simp [exited, asks, Jump.resume, Jump.exits, parking, State.setCurrent, setTcb,
        State.current, living]

theorem said_of_living (living : (s.tcbs p).freed = false)
    (begun : (s.tcbs p).env = .setup → s.slept p = true) : s.said p = (s.tcbs p).env.said := by
  unfold said
  rw [living, if_neg Bool.false_ne_true, if_neg]
  rintro ⟨setup, awake⟩
  exact absurd (awake.symm.trans (begun setup)) (by decide)

/-- Thread `p` has printed what its resume point tells. -/
structure Scripted (args : List Int) (qP qS : Int) (s : State) (p : Nat) : Prop where
  routine : (s.tcbs p).routine = .enroll
  loaded : (s.tcbs p).args = args
  lines : ∃ pjClass, s.lines p = (scriptOf args qP qS p pjClass).take (s.said p)

/-- The lines behind a jump, its own exit included. -/
def linesBehind (v : State) (p : Nat) : Jump → List Print
  | .exit => v.lines p ++ [.exit p]
  | _ => v.lines p

/-- The running thread goes on in its script up to its jump. -/
theorem Scripted.enrollJump {args : List Int} {qP qS : Int}
    (scripted : Scripted args qP qS s s.currentThread) (cons : s.Consistent n)
    (spots : s.qP = qP ∧ s.qS = qS) (living : s.current.freed = false)
    (vacant : s.sleepingSet[s.currentThread]? = some none)
    (ran : s.enrollJump = some (v, jump)) : ∃ pjClass,
      v.linesBehind s.currentThread jump =
        (scriptOf args qP qS s.currentThread pjClass).take jump.said := by
  obtain ⟨_, loaded, pjClass, lines⟩ := scripted
  obtain ⟨spotsP, spotsS⟩ := spots
  have id : s.current.id = s.currentThread := cons.accounted.ids _
  have mine : (s.current.id == s.currentThread) = true := by rw [id]; exact beq_self_eq_true _
  rw [← State.current] at loaded
  have slept : s.slept s.currentThread = s.current.keepgo := slept_of_vacant vacant
  have later (begun : s.current.env = .setup → s.current.keepgo = true) :
      s.said s.currentThread = s.current.env.said :=
    said_of_living living fun setup => slept.trans (begun setup)
  unfold State.enrollJump at ran
  split at ran
  · rename_i env
    dsimp only at ran
    split at ran
    · rename_i first
      have none_said : s.said s.currentThread = 0 := by
        unfold said
        rw [← State.current, living, if_neg Bool.false_ne_true, slept]
        exact if_pos ⟨env, first⟩
      cases ran
      refine ⟨pjClass, ?_⟩
      unfold linesBehind
      rw [lines_print_own, lines, none_said, id, loaded]
      · rfl
      · exact mine
    · rename_i awake
      rw [Bool.not_eq_false] at awake
      obtain ⟨woken, found, ends⟩ := Option.map_eq_some_iff.mp ran
      have quiet := (threadAwake_quiet found).lines s.currentThread
      have current := (threadAwake_scanned found).1.currentThread
      have own : woken.current.id = s.currentThread :=
        ((cons.threadAwake found).accounted.ids _).trans current
      rw [later fun _ => awake, env] at lines
      unfold readLockJump at ends
      split at ends
      · cases ends
        exact ⟨pjClass, quiet.trans lines⟩
      · cases ends
        refine ⟨pjClass, ?_⟩
        unfold linesBehind
        rw [lines_print_own]
        · change woken.lines s.currentThread ++ [.acquireRead woken.current.id] = _
          rw [quiet, lines, own]
          rfl
        · change (woken.current.id == s.currentThread) = true
          rw [own]
          exact beq_self_eq_true _
  · rename_i env
    rw [later (by rw [env]; rintro ⟨⟩), env] at lines
    cases ran
    refine ⟨pjClass, ?_⟩
    unfold linesBehind
    rw [lines_print_own, lines, id]
    · rfl
    · exact mine
  · rename_i env
    rw [later (by rw [env]; rintro ⟨⟩), env] at lines
    cases ran
    refine ⟨pjClass, ?_⟩
    unfold linesBehind
    rw [lines_print_own, id]
    · change s.lines s.currentThread ++ _ = _
      rw [lines, loaded, spotsP, spotsS]
      rfl
    · exact mine
  · rename_i env
    rw [later (by rw [env]; rintro ⟨⟩), env] at lines
    have ends := Option.some.inj ran
    unfold writeLockJump at ends
    split at ends
    · cases ends
      exact ⟨pjClass, lines⟩
    · cases ends
      refine ⟨decide (s.pp > s.ps), ?_⟩
      unfold linesBehind
      rw [lines_print_own]
      · change s.lines s.currentThread ++ [.acquireWrite s.current.id _] = _
        rw [lines, id]
        rfl
      · exact mine
  · rename_i env
    rw [later (by rw [env]; rintro ⟨⟩), env] at lines
    cases ran
    refine ⟨decide (s.pp > s.ps), ?_⟩
    unfold linesBehind
    rw [lines_print_own, lines, id]
    · rfl
    · exact mine
  · rename_i k notFirst notSecond env
    rw [later (by rw [env]; rintro ⟨⟩), env,
      Env.said_last notFirst notSecond] at lines
    cases ran
    refine ⟨pjClass, ?_⟩
    unfold linesBehind
    rw [lines_print_own]
    · change s.lines s.currentThread ++ [.releaseWrite s.current.id] ++ _ = _
      rw [lines, id]
      rfl
    · exact mine

/-- Up to its jump a thread in `enroll` leaves the saved part of its tcb alone. -/
theorem Stirs.kept_current (stirs : s.Stirs v jump) (enroll : s.current.routine = .enroll)
    (created : s.currentThread ≠ 0) : s.current.Kept v.current := by
  have current := stirs.globals.1
  unfold State.current
  rw [current]
  cases stirs with
  | sleep => exact .refl _
  | awake _ _ _ found _ tcbs =>
    rw [tcbs]
    exact (threadAwake_scanned found).1.tcb _ created
  | other _ _ tcbs =>
    rw [tcbs _ (.inr enroll)]
    exact .refl _

/-- The part of the script the running thread has printed behind its jump. -/
theorem Consistent.jump_said (cons : s.Consistent n) (pending : Option Signal)
    (ran : s.body = some (v, jump)) (enroll : s.current.routine = .enroll)
    (created : s.currentThread ≠ 0) (inside : s.currentThread < THREAD_MAX)
    (vacant : s.sleepingSet[s.currentThread]? = some none) :
    (v.jump pending jump).said s.currentThread = jump.said := by
  have kept := (stirs_of_body ran).kept_current enroll created
  have alive := cons.running.resolve_left created
  obtain ⟨env, freed⟩ := cons.jump_own pending ran created (kept.freed.trans alive.2.2)
  cases jump with
  | exit => exact if_pos freed
  | yield k =>
    rw [said_of_living freed fun setup => absurd (env.symm.trans setup) nofun, env]
    rfl
  | park resume resource =>
    have resume_ne : resume ≠ .setup := by
      cases ends_of_body ran with
      | readPark | writePark => nofun
    rw [said_of_living freed fun setup => absurd (env.symm.trans setup) resume_ne, env]
    rfl
  | sleep seconds =>
    have found : v.jumpEntry pending (.sleep seconds) = some (v.asleep seconds, 2) := rfl
    have enters : (v.asleep seconds).Enters n 2 := cons.enters (ends_of_body ran) found
    have setup : s.current.env = .setup := by
      cases stirs_of_body ran with
      | sleep _ setup => exact setup
      | awake _ _ _ _ _ _ stays => exact absurd rfl (stays seconds)
      | other _ _ _ stays => exact absurd rfl (stays seconds)
    have slept : (v.jump pending (.sleep seconds)).slept s.currentThread = true := by
      rw [jump_of_entry found]
      refine (enters.slept created inside).trans (slept_of_asleep ?_)
      have current := (stirs_of_body ran).globals.1
      have id : v.current.id = s.currentThread := kept.id.trans (cons.accounted.ids _)
      have set : v.sleepingSet = s.sleepingSet := by
        cases stirs_of_body ran with
        | sleep => rfl
        | awake _ _ _ _ _ _ stays => exact absurd rfl (stays seconds)
        | other _ _ _ stays => exact absurd rfl (stays seconds)
      change (v.sleepingSet.set v.current.id (some v.currentThread))[s.currentThread]? = _
      rw [id, current, set]
      exact List.getElem?_set_self (List.getElem?_eq_some_iff.mp vacant).1
    rw [said_of_living freed fun _ => slept, env]
    change v.current.env.said = _
    rw [kept.env, setup]
    rfl

/-- Every step keeps the thread in its script. -/
theorem Scripted.step {args : List Int} {qP qS : Int} (scripted : Scripted args qP qS s p)
    (cons : s.Consistent n) (spots : s.qP = qP ∧ s.qS = qS) (steps : s.step pending = some t)
    (created : p ≠ 0) (inside : p < THREAD_MAX) : Scripted args qP qS t p := by
  obtain ⟨_, _, _, _, moved⟩ := cons.step steps
  by_cases runs : p = s.currentThread
  · subst runs
    have enroll : s.current.routine = .enroll := scripted.routine
    have alive := cons.running.resolve_left created
    have vacant : s.sleepingSet[s.currentThread]? = some none :=
      (cons.accounted.toShape.slot_cases inside).resolve_right fun asleep =>
        cons.accounted.ne_hand_of_slot asleep rfl
    obtain ⟨v, jump, ran, rfl⟩ := body_of_step steps
    have ends : s.enrollJump = some (v, jump) := by
      unfold State.body at ran
      rw [(step_cases steps).1, enroll] at ran
      exact ran
    obtain ⟨pjClass, lines⟩ := scripted.enrollJump cons spots alive.2.2 vacant ends
    refine ⟨(moved.routine created).trans enroll, (moved.args created).trans scripted.loaded,
      pjClass, ?_⟩
    rw [cons.jump_said pending ran enroll created inside vacant, ← lines, jump_lines]
    have id : v.current.id = s.currentThread :=
      ((stirs_of_body ran).kept_current enroll created).id.trans (cons.accounted.ids _)
    cases jump with
    | exit => exact congrArg (v.lines s.currentThread ++ ·) (if_pos id)
    | yield | sleep | park => exact List.append_nil _
  · have kept := moved.others p created runs
    obtain ⟨routine, loaded, pjClass, lines⟩ := scripted
    refine ⟨kept.routine.trans routine, kept.args.trans loaded, pjClass, ?_⟩
    have slept := cons.step_slept steps created inside runs
    have said : t.said p = s.said p := by
      unfold State.said
      rw [kept.freed, kept.env, slept]
    rw [said, ← lines]
    obtain ⟨v, jump, ran, rfl⟩ := body_of_step steps
    rw [jump_lines, cons.body_lines ran runs]
    cases jump with
    | exit =>
      have found : v.jumpEntry pending .exit = some (v.print (.exit v.current.id), 3) := rfl
      have enters : (v.print (.exit v.current.id)).Enters n 3 :=
        cons.enters (ends_of_body ran) found
      have id : v.current.id = v.currentThread := enters.1.ids v.currentThread
      have other : v.current.id ≠ p := by
        rw [id, (stirs_of_body ran).globals.1]
        exact Ne.symm runs
      dsimp only
      rw [if_neg other]
      exact List.append_nil _
    | yield | sleep | park => exact List.append_nil _

end State

open State

variable {timeSlice qP qS : Int} {specs : List Spec} {s : State}
  {guard : State → Option Signal → Prop}

theorem start_scripted (timeSlice qP qS : Int) (few : specs.length < THREAD_MAX) {p : Nat}
    {spec : Spec} (lower : 1 ≤ p) (named : specs[p - 1]? = some spec)
    (enroll : spec.routine = .enroll) :
    Scripted spec.args qP qS (start timeSlice qP qS specs) p := by
  let loaded := spawnThread (blank timeSlice qP qS) 1 specs
  have created : p ≠ 0 := by omega
  have bound : p - 1 < specs.length := (List.getElem?_eq_some_iff.mp named).1
  have spawned := spawned timeSlice qP qS few
  have enters : loaded.Enters specs.length 0 := ⟨spawned.entered, .inl spawned.idleRuns⟩
  have tcb := spawnThread_tcb (blank timeSlice qP qS) 1 specs named
  rw [show 1 + (p - 1) = p by omega] at tcb
  have kept := (start_after timeSlice qP qS few).kept.tcb p created
  rw [tcb] at kept
  have vacant : loaded.sleepingSet[p]? = some none := by
    rw [spawnThread_sleepingSet]
    exact List.getElem?_replicate_of_lt (by omega)
  have awake : (start timeSlice qP qS specs).slept p = false := by
    have keepgo : (loaded.tcbs p).keepgo = false := congrArg Tcb.keepgo tcb
    exact (enters.slept created (by omega)).trans ((slept_of_vacant vacant).trans keepgo)
  have none_said : (start timeSlice qP qS specs).said p = 0 := by
    unfold said
    rw [kept.freed, kept.env, awake]
    rfl
  refine ⟨kept.routine.trans enroll, kept.args, false, ?_⟩
  rw [none_said]
  have aside := (start_out timeSlice qP qS specs).2.2
  refine List.filter_eq_nil_iff.mpr fun line member => ?_
  have out := aside line member
  cases line with
  | setUp | caught => exact Bool.false_ne_true
  | _ => cases out

/-- The arguments with which no `int` operation of the routines overflows: in `enroll` the products
with the spots in the classes, and the time to sleep. -/
def Spec.Fits (timeSlice qP qS : Int) : Spec → Prop
  | .enroll dP dS seconds _ => (int32 (dP * qP)).isSome ∧ (int32 (dS * qS)).isSome ∧
      (int32 (seconds + timeSlice)).isSome
  | spec => spec.Sequential

/-- Preemption transparency of `enroll`: whatever signals are pending and however often it waits
for the lock, a thread prints the lines of its script in order and each of them once, up to the
one its resume point tells, and all of them once it has exited. The class may depend on the
signals: `pp` and `ps` do not survive a switch of threads. -/
theorem enroll_script (few : specs.length < THREAD_MAX)
    (fits : ∀ spec ∈ specs, spec.Fits timeSlice qP qS)
    (reached : (machine timeSlice qP qS specs).Reach Machine.anyStep s) {p : Nat}
    {dP dS seconds b : Int} (lower : 1 ≤ p)
    (named : specs[p - 1]? = some (.enroll dP dS seconds b)) : ∃ pp ps pjClass,
      int32 (dP * qP) = some pp ∧ int32 (dS * qS) = some ps ∧
        s.lines p = (script seconds pp ps p pjClass).take (s.said p) := by
  have bound : p - 1 < specs.length := (List.getElem?_eq_some_iff.mp named).1
  have scripted : Scripted [dP, dS, seconds, b] qP qS s p := by
    refine reached.invariant (fun s => Scripted [dP, dS, seconds, b] qP qS s p) ?_ ?_
    · intro state initial
      have same : state = start timeSlice qP qS specs := initial
      rw [same]
      exact start_scripted timeSlice qP qS few lower named rfl
    · intro state pending next prior scripted _ steps
      exact scripted.step (reach_consistent few prior) (reach_spots prior) steps (by omega)
        (by omega)
  obtain ⟨firstFits, secondFits, _⟩ := fits _ (List.mem_of_getElem? named)
  obtain ⟨pp, first⟩ := Option.isSome_iff_exists.mp firstFits
  obtain ⟨ps, second⟩ := Option.isSome_iff_exists.mp secondFits
  obtain ⟨pjClass, lines⟩ := scripted.lines
  refine ⟨pp, ps, pjClass, first, second, ?_⟩
  rw [int32_eq first, int32_eq second]
  exact lines

/-- Two threads that are preempted at every yield; the second one waits for the write lock. -/
theorem enroll_script_preempted :
    ∃ s, (machine 1 1 1 [.enroll 1 2 0 2, .enroll 2 1 0 1]).Reach Machine.anyStep s ∧
      s.returned = true ∧ s.said 1 = 6 ∧ ∃ pp ps pjClass,
        int32 (1 * 1) = some pp ∧ int32 (2 * 1) = some ps ∧
          s.lines 1 = (script 0 pp ps 1 pjClass).take (s.said 1) := by
  have ran : ((machine 1 1 1 [.enroll 1 2 0 2, .enroll 2 1 0 1]).exec (fun _ _ => true)
      (start 1 1 1 [.enroll 1 2 0 2, .enroll 2 1 0 1]) (List.replicate 11 (some .SIGTSTP))).map
        (fun s => (s.returned, s.said 1)) = some (true, 6) := by
    decide +kernel
  obtain ⟨s, runs, result⟩ := Option.map_eq_some_iff.mp ran
  obtain ⟨returned, all⟩ := Prod.mk.inj result
  have reached : (machine 1 1 1 [.enroll 1 2 0 2, .enroll 2 1 0 1]).Reach Machine.anyStep s :=
    (Machine.Reach.initial rfl).exec (fun _ _ _ => trivial) runs
  refine ⟨s, reached, returned, all, enroll_script (by decide) (fun spec member => ?_) reached
    (by decide) rfl⟩
  simp only [List.mem_cons, List.not_mem_nil, or_false] at member
  rcases member with rfl | rfl <;> exact ⟨by decide, by decide, by decide⟩

end NTUSP.Threads
