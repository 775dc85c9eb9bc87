import NTUSP.Library.Int32
import NTUSP.Threads.Lines
import Mathlib.Data.Nat.Fib.Basic

/-!
# The values of `fibonacci` and `pm`

The loop of a `fibonacci` or `pm` thread lives in its tcb, and only its own turns write it.
So wherever a thread is preempted, it has printed a beginning of its sequence, and the next
turn goes on with the next value.
-/

namespace NTUSP.Threads

open NTUSP.Library

/-- The sequence of `pm`; 0 stands before its first value. -/
def pmValue : Nat → Int
  | 0 => 0
  | i + 1 => if (i + 1) % 2 = 1 then pmValue i + (i + 1) else pmValue i - (i + 1)

/-- The values of `pm` stay close to 0. -/
theorem pmValue_bounds (i : Nat) :
    pmValue i = if i % 2 = 1 then ((i : Int) + 1) / 2 else -((i : Int) / 2) := by
  induction i with
  | zero => rfl
  | succ i ih =>
    unfold pmValue
    by_cases odd : (i + 1) % 2 = 1
    · rw [if_pos odd, if_pos odd, ih, if_neg (by omega)]
      omega
    · rw [if_neg odd, if_neg odd, ih, if_pos (by omega)]
      omega

namespace Spec

/-- A `fibonacci` or `pm` thread whose values fit into an `int`. -/
def Sequential : Spec → Prop
  | .fibonacci n => 1 ≤ n ∧ n ≤ 46
  | .pm n => 1 ≤ n ∧ n ≤ INT_MAX
  | .enroll _ _ _ _ => False

/-- The number of values of the thread. -/
def turns : Spec → Nat
  | .fibonacci n => n.toNat
  | .pm n => n.toNat
  | .enroll _ _ _ _ => 0

/-- Value `i` of the thread. -/
def value : Spec → Nat → Int
  | .fibonacci _, i => Nat.fib i
  | .pm _, i => pmValue i
  | .enroll _ _ _ _, _ => 0

/-- What `f_prev` holds with value `i`: the value before it, and 1 with the first one. -/
def prev (spec : Spec) (i : Nat) : Int := if i = 1 then 1 else spec.value (i - 1)

/-- The line of value `i` in thread `p`. -/
def line : Spec → Nat → Nat → Print
  | .fibonacci _, p, i => .fibonacci p i (Nat.fib i)
  | .pm _, p, i => .pm p i (pmValue i)
  | .enroll _ _ _ _, p, _ => .exit p

/-- The lines of the first `count` values. -/
def reference (spec : Spec) (p count : Nat) : List Print := (List.range' 1 count).map (spec.line p)

theorem reference_succ (spec : Spec) (p k : Nat) :
    spec.reference p (k + 1) = spec.reference p k ++ [spec.line p (k + 1)] := by
  simp only [reference, List.range'_concat, List.map_append, Nat.one_mul, Nat.add_comm 1 k]
  rfl

theorem reference_prefix (spec : Spec) (p : Nat) {k n : Nat} (fewer : k ≤ n) :
    spec.reference p k <+: spec.reference p n := by
  obtain ⟨rest, rfl⟩ := Nat.exists_eq_add_of_le fewer
  simp only [reference, ← List.range'_append_1, List.map_append]
  exact List.prefix_append ..

variable {spec : Spec}

theorem Sequential.turns_pos (sequential : spec.Sequential) : 0 < spec.turns := by
  cases spec with
  | fibonacci n =>
    obtain ⟨lower, _⟩ := sequential
    simp only [turns]
    omega
  | pm n =>
    obtain ⟨lower, _⟩ := sequential
    simp only [turns]
    omega
  | enroll => exact sequential.elim

/-- The loop runs up to the argument of the thread. -/
theorem Sequential.first_arg (sequential : spec.Sequential) : spec.args.getD 0 0 = spec.turns := by
  cases spec with
  | fibonacci n =>
    obtain ⟨lower, _⟩ := sequential
    exact (Int.toNat_of_nonneg (Int.le_trans (by decide) lower)).symm
  | pm n =>
    obtain ⟨lower, _⟩ := sequential
    exact (Int.toNat_of_nonneg (Int.le_trans (by decide) lower)).symm
  | enroll => exact sequential.elim

/-- No value of the thread leaves the range of an `int`. -/
theorem Sequential.value_bounds (sequential : spec.Sequential) {k : Nat} (inside : k ≤ spec.turns) :
    INT_MIN ≤ spec.value k ∧ spec.value k ≤ INT_MAX := by
  unfold INT_MIN INT_MAX
  cases spec with
  | fibonacci n =>
    obtain ⟨lower, upper⟩ := sequential
    simp only [turns] at inside
    have small : Nat.fib k ≤ Nat.fib 46 := Nat.fib_mono (by omega)
    have last : Nat.fib 46 = 1836311903 := by decide +kernel
    simp only [value]
    omega
  | pm n =>
    obtain ⟨lower, upper⟩ := sequential
    unfold INT_MAX at upper
    simp only [turns] at inside
    simp only [value]
    have closed := pmValue_bounds k
    split at closed <;> omega
  | enroll => exact sequential.elim

end Spec

/-- A value or the exit of thread `p`. -/
def Print.tells (p : Nat) : Print → Bool
  | .fibonacci id _ _ | .pm id _ _ | .exit id => id == p
  | _ => false

namespace State

/-- The values and the exit that thread `p` has printed. -/
def told (s : State) (p : Nat) : List Print := s.out.filter (Print.tells p)

variable {s t u : State} {p k n : Nat} {spec : Spec} {pending : Option Signal}

theorem told_print (s : State) (line : Print) (p : Nat) :
    (s.print line).told p = s.told p ++ if line.tells p then [line] else [] := by
  simp only [told, State.print, List.filter_append]
  cases tells : line.tells p <;> simp [tells]

theorem tells_of_aside {line : Print} (aside : line.aside = true) (p : Nat) :
    line.tells p = false := by
  cases line with
  | setUp | caught => rfl
  | _ => cases aside

theorem Quiet.told (quiet : s.Quiet t) (p : Nat) : t.told p = s.told p := by
  obtain ⟨more, printed, aside⟩ := quiet.out
  have none : more.filter (Print.tells p) = [] :=
    List.filter_eq_nil_iff.mpr fun line member => by simp [tells_of_aside (aside line member)]
  simp only [State.told, printed, List.filter_append, none, List.append_nil]

/-- How far thread `p` is: it has not begun, it stands behind value `k`, or it has exited. -/
inductive Progress (spec : Spec) (s : State) (p : Nat) : Prop where
  | fresh (living : (s.tcbs p).freed = false) (env : (s.tcbs p).env = .setup)
      (told : s.told p = []) : Progress spec s p
  | behind {k : Nat} (living : (s.tcbs p).freed = false) (env : (s.tcbs p).env = .yield 0)
      (begun : 1 ≤ k) (more : k < spec.turns)
      (locals : (s.tcbs p).locals = ((spec.turns : Int), (k : Int), spec.value k, spec.prev k))
      (told : s.told p = spec.reference p k) : Progress spec s p
  | exited (gone : (s.tcbs p).freed = true)
      (told : s.told p = spec.reference p spec.turns ++ [.exit p]) : Progress spec s p

/-- Thread `p` runs the routine of `spec`. -/
structure Runs (spec : Spec) (s : State) (p : Nat) : Prop where
  routine : (s.tcbs p).routine = spec.routine
  args : (s.tcbs p).args = spec.args
  progress : Progress spec s p

/-- The thread's own tcb and lines are all that matters. -/
theorem Runs.of_same (runs : Runs spec s p) (kept : (s.tcbs p).Kept (t.tcbs p))
    (locals : (t.tcbs p).locals = (s.tcbs p).locals) (told : t.told p = s.told p) :
    Runs spec t p where
  routine := kept.routine.trans runs.routine
  args := kept.args.trans runs.args
  progress := by
    cases runs.progress with
    | fresh living env nothing =>
      exact .fresh (kept.freed.trans living) (kept.env.trans env) (told.trans nothing)
    | behind living env begun more values lines =>
      exact .behind (kept.freed.trans living) (kept.env.trans env) begun more
        (locals.trans values) (told.trans lines)
    | exited gone lines => exact .exited (kept.freed.trans gone) (told.trans lines)

/-! ## One turn -/

/-- The state behind the output of value `k + 1`. -/
def turned (s : State) (spec : Spec) (k : Nat) : State :=
  (s.setCurrent { s.current with
    n := spec.turns, i := (k + 1 : Nat), fCur := spec.value (k + 1), fPrev := spec.prev (k + 1) }).print
      (spec.line s.currentThread (k + 1))

theorem turned_computed (s : State) (spec : Spec) (k : Nat) : s.Computed (s.turned spec k) := by
  apply computed_print
  exact ⟨rfl, rfl, rfl, rfl, rfl, rfl⟩

theorem turned_current (s : State) (spec : Spec) (k : Nat) :
    (s.turned spec k).current = { s.current with
      n := spec.turns, i := (k + 1 : Nat), fCur := spec.value (k + 1),
      fPrev := spec.prev (k + 1) } := by
  simp [turned, State.print, current, State.setCurrent, setTcb]

theorem fibonacciTurn_eq {m : Int} {tcb : Tcb} (i : tcb.i = (k + 1 : Nat))
    (before : 1 ≤ k → tcb.fCur = Nat.fib k ∧ tcb.fPrev = (Spec.fibonacci m).prev k) :
    (s.setCurrent tcb).fibonacciTurn pending =
      ((s.setCurrent { tcb with
        fCur := Nat.fib (k + 1), fPrev := (Spec.fibonacci m).prev (k + 1) }).print
          (.fibonacci tcb.id (k + 1 : Nat) (Nat.fib (k + 1)))).finishTurn pending := by
  have computed : (if tcb.i ≤ 2 then { tcb with fCur := 1, fPrev := 1 }
      else { tcb with fPrev := tcb.fCur, fCur := tcb.fCur + tcb.fPrev } : Tcb) =
        { tcb with fCur := Nat.fib (k + 1), fPrev := (Spec.fibonacci m).prev (k + 1) } := by
    rw [i]
    match k, before with
    | 0, _ => simp [Spec.prev]
    | 1, _ => simp [Spec.prev, Spec.value]
    | k + 2, before =>
      obtain ⟨cur, prev⟩ := before (by omega)
      rw [if_neg (by omega), cur, prev]
      have next : Nat.fib (k + 2 + 1) = Nat.fib (k + 1) + Nat.fib (k + 2) := Nat.fib_add_two
      simp [Spec.prev, Spec.value, next, Int.add_comm]
  unfold fibonacciTurn fibonacciRound
  simp only [setCurrent_current]
  rw [computed, setCurrent_setCurrent, i]

theorem pmTurn_eq {m : Int} {tcb : Tcb} (i : tcb.i = (k + 1 : Nat))
    (before : 1 ≤ k → tcb.fCur = pmValue k) :
    (s.setCurrent tcb).pmTurn pending =
      ((s.setCurrent { tcb with
        fCur := pmValue (k + 1), fPrev := (Spec.pm m).prev (k + 1) }).print
          (.pm tcb.id (k + 1 : Nat) (pmValue (k + 1)))).finishTurn pending := by
  have computed : (if tcb.i = 1 then { tcb with fCur := 1, fPrev := 1 }
      else
        { tcb with
          fPrev := tcb.fCur
          fCur := (if tcb.i % 2 = 1 then 1 else -1) * tcb.i + tcb.fCur } : Tcb) =
        { tcb with fCur := pmValue (k + 1), fPrev := (Spec.pm m).prev (k + 1) } := by
    rw [i]
    match k, before with
    | 0, _ => simp [Spec.prev, pmValue]
    | k + 1, before =>
      rw [if_neg (by omega), before (by omega)]
      have next : ((if ((k + 1 + 1 : Nat) : Int) % 2 = 1 then 1 else -1) : Int) * (k + 1 + 1 : Nat) +
          pmValue (k + 1) = pmValue (k + 1 + 1) := by
        rw [pmValue.eq_2 (k + 1)]
        by_cases odd : (k + 1 + 1) % 2 = 1
        · rw [if_pos (by omega), if_pos odd]
          omega
        · rw [if_neg (by omega), if_neg odd]
          omega
      simp only [next, Spec.prev, Spec.value]
      simp
  unfold pmTurn pmRound
  simp only [setCurrent_current]
  rw [computed, setCurrent_setCurrent, i]

variable (pending) in
/-- The running thread prints its next value, and then exits or yields. -/
theorem step_turned (sequential : spec.Sequential) (runs : Runs spec s s.currentThread)
    (id : s.current.id = s.currentThread) (living : s.current.freed = false)
    (running : s.returned = false) :
    ∃ k, k < spec.turns ∧ s.told s.currentThread = spec.reference s.currentThread k ∧
      s.step pending = some ((s.turned spec k).finishTurn pending) := by
  -- The loop head: the counter of the next turn, behind the values of the last one.
  obtain ⟨k, more, told, cur, prev, head, values⟩ :
      ∃ k, k < spec.turns ∧ s.told s.currentThread = spec.reference s.currentThread k ∧
        ∃ cur prev : Int, s.loopHead = s.setCurrent { s.current with
            n := spec.turns, i := (k + 1 : Nat), fCur := cur, fPrev := prev } ∧
          (1 ≤ k → cur = spec.value k ∧ prev = spec.prev k) := by
    cases runs.progress with
    | fresh _ env told =>
      refine ⟨0, sequential.turns_pos, told, s.current.fCur, s.current.fPrev, ?_, fun begun => by omega⟩
      have env : s.current.env = .setup := env
      have args : s.current.args = spec.args := runs.args
      rw [loopHead, env]
      simp only [args, sequential.first_arg]
      rfl
    | @behind k _ env begun more locals told =>
      have env : s.current.env = .yield 0 := env
      have locals : s.current.locals = ((spec.turns : Int), (k : Int), spec.value k, spec.prev k) :=
        locals
      simp only [Tcb.locals, Prod.mk.injEq] at locals
      obtain ⟨n, i, cur, prev⟩ := locals
      refine ⟨k, more, told, s.current.fCur, s.current.fPrev, ?_, fun _ => ⟨cur, prev⟩⟩
      rw [loopHead, env]
      simp only [i, ← n]
      rfl
    | exited gone => exact absurd (living.symm.trans gone) (by decide)
  refine ⟨k, more, told, ?_⟩
  have routine : s.current.routine = spec.routine := runs.routine
  unfold step
  rw [running, routine]
  cases spec with
  | fibonacci m =>
    simp only [Spec.routine, Bool.false_eq_true, if_false]
    rw [head, fibonacciTurn_eq (m := m) rfl values, turned]
    simp only [id]
    rfl
  | pm m =>
    simp only [Spec.routine, Bool.false_eq_true, if_false]
    rw [head, pmTurn_eq (m := m) rfl fun begun => (values begun).1, turned]
    simp only [id]
    rfl
  | enroll => exact sequential.elim

/-- A thread behind value `k + 1` exits if it was the last one, and yields otherwise. -/
theorem finishTurn_own (cons : u.Consistent n) (before : u.returned = false)
    (created : u.currentThread ≠ 0) (routine : u.current.routine = spec.routine)
    (args : u.current.args = spec.args) (inside : k < spec.turns)
    (locals : u.current.locals =
      ((spec.turns : Int), ((k + 1 : Nat) : Int), spec.value (k + 1), spec.prev (k + 1)))
    (told : u.told u.currentThread = spec.reference u.currentThread (k + 1)) :
    Runs spec (u.finishTurn pending) u.currentThread := by
  have id : u.current.id = u.currentThread := cons.accounted.ids _
  have counters := locals
  simp only [Tcb.locals, Prod.mk.injEq] at counters
  obtain ⟨bound, counter, _⟩ := counters
  unfold finishTurn
  rw [bound, counter]
  split
  · rename_i last
    have after := cons.entered.threadExit cons.running before
    have kept := after.kept.tcb _ created
    have own : (u.setCurrent { u.current with freed := true }).tcbs u.currentThread =
        { u.current with freed := true } := u.setCurrent_current _
    rw [own] at kept
    have quiet : (u.print (.exit u.current.id)).Quiet u.threadExit := scheduler_quiet _ 3
    refine ⟨kept.routine.trans routine, kept.args.trans args, .exited kept.freed ?_⟩
    have all : k + 1 = spec.turns := by omega
    rw [quiet.told, told_print, told, id, all]
    simp [Print.tells]
  · rename_i more
    have after : After n _ (u.threadYield 0 pending) := cons.threadYield before
    have kept := after.kept.tcb _ created
    have own : (u.setCurrent { u.current with env := .yield 0 }).tcbs u.currentThread =
        { u.current with env := .yield 0 } := u.setCurrent_current _
    rw [own] at kept
    have quiet := u.threadYield_quiet 0 pending
    refine ⟨kept.routine.trans routine, kept.args.trans args, ?_⟩
    refine .behind (kept.freed.trans (cons.current_freed created)) kept.env (by omega)
      (show k + 1 < spec.turns by omega) ?_ ?_
    · rw [quiet.locals _ created]
      exact locals
    · rw [quiet.told, told]

/-- A thread that does not run keeps its place and its lines. -/
theorem Runs.other (runs : Runs spec s p) (created : p ≠ 0) {tcb : Tcb} (other : p ≠ u.currentThread)
    (own : u.tcbs p = s.tcbs p) (after : After n (u.setCurrent tcb) t)
    (locals : (t.tcbs p).locals = (u.tcbs p).locals) (told : t.told p = s.told p) :
    Runs spec t p := by
  have kept := after.kept.tcb p created
  have same : (u.setCurrent tcb).tcbs p = s.tcbs p := by
    rw [← own]
    exact Function.update_of_ne other ..
  rw [same] at kept
  exact runs.of_same kept (own ▸ locals) told

/-- The end of a turn is nobody else's. -/
theorem finishTurn_other (cons : u.Consistent n) (before : u.returned = false)
    (runs : Runs spec s p) (created : p ≠ 0) (other : p ≠ u.currentThread)
    (own : u.tcbs p = s.tcbs p) (told : u.told p = s.told p) :
    Runs spec (u.finishTurn pending) p := by
  have id : u.current.id = u.currentThread := cons.accounted.ids _
  unfold finishTurn
  split
  · have quiet : (u.print (.exit u.current.id)).Quiet u.threadExit := scheduler_quiet _ 3
    refine runs.other created other own (cons.entered.threadExit cons.running before)
      (quiet.locals p created) ?_
    rw [quiet.told, told_print, told]
    simp [Print.tells, id, Ne.symm other]
  · have quiet := u.threadYield_quiet 0 pending
    exact runs.other created other own (cons.threadYield before) (quiet.locals p created)
      ((quiet.told p).trans told)

theorem line_tells (sequential : spec.Sequential) (p i q : Nat) :
    (spec.line p i).tells q = (p == q) := by
  cases spec with
  | enroll => exact sequential.elim
  | _ => rfl

/-- Every step keeps the place of every thread. -/
theorem Runs.step {specs : List Spec} (cons : s.Consistent specs.length)
    (sequential : ∀ spec ∈ specs, spec.Sequential)
    (runs : ∀ p spec, 1 ≤ p → specs[p - 1]? = some spec → Runs spec s p)
    (steps : s.step pending = some t) :
    ∀ p spec, 1 ≤ p → specs[p - 1]? = some spec → Runs spec t p := by
  have before : s.returned = false := (step_cases steps).1
  have id : s.current.id = s.currentThread := cons.accounted.ids _
  intro p spec lower named
  have created : p ≠ 0 := by omega
  rcases cons.running with idle | alive
  · -- The idle thread prints and yields.
    have routine : s.current.routine = .idle := by
      rw [current, idle]
      exact cons.accounted.idle
    have next : t = (s.print (.idle s.current.id)).threadYield 0 pending := by
      simp only [State.step, before, routine, Bool.false_eq_true, if_false] at steps
      exact (Option.some.inj steps).symm
    have quiet := (s.print (.idle s.current.id)).threadYield_quiet 0 pending
    rw [next]
    refine (runs p spec lower named).other created (u := s.print (.idle s.current.id)) ?_ rfl
      ((cons.print _).threadYield before) (quiet.locals p created) ?_
    · change p ≠ s.currentThread
      omega
    · rw [quiet.told, told_print]
      simp [Print.tells]
  · have first := alive.1
    have last := alive.2.1
    obtain ⟨current, here⟩ : ∃ current, specs[s.currentThread - 1]? = some current :=
      ⟨_, List.getElem?_eq_getElem (by omega)⟩
    have valid := sequential current (List.mem_of_getElem? here)
    have mine := runs s.currentThread current alive.1 here
    obtain ⟨k, inside, told, step⟩ := step_turned pending valid mine id alive.2.2 before
    have next : t = (s.turned current k).finishTurn pending := by
      rw [step] at steps
      exact (Option.some.inj steps).symm
    have turned : (s.turned current k).Consistent specs.length :=
      cons.computed (s.turned_computed current k)
    rw [next]
    by_cases same : p = s.currentThread
    · subst same
      obtain rfl := Option.some.inj (here.symm.trans named)
      have own := s.turned_current current k
      refine finishTurn_own turned before created ?_ ?_ inside ?_ ?_
      · rw [own]
        exact mine.routine
      · rw [own]
        exact mine.args
      · rw [own]
        rfl
      · change (State.print _ _).told s.currentThread = current.reference s.currentThread (k + 1)
        rw [told_print, line_tells valid, Spec.reference_succ, beq_self_eq_true, if_pos rfl, ← told]
        rfl
    · refine finishTurn_other turned before (runs p spec lower named) created same ?_ ?_
      · exact Function.update_of_ne same ..
      · rw [State.turned, told_print, line_tells valid, beq_false_of_ne (Ne.symm same)]
        exact List.append_nil _

/-! ## The start -/

theorem spawnThread_other (s : State) (id : Nat) (specs : List Spec) {p : Nat} (below : p < id) :
    (Threads.spawnThread s id specs).tcbs p = s.tcbs p := by
  induction specs generalizing s id with
  | nil => rfl
  | cons spec rest ih =>
    change (Threads.spawnThread (s.threadSetup spec.routine id spec.args) (id + 1) rest).tcbs p = _
    rw [ih _ _ (by omega), threadSetup_other _ _ _ _ (by omega)]

/-- Each thread is created with its own routine and arguments. -/
theorem spawnThread_tcb (s : State) (id : Nat) (specs : List Spec) {j : Nat}
    (named : specs[j]? = some spec) :
    (Threads.spawnThread s id specs).tcbs (id + j) =
      { id := id + j, routine := spec.routine, args := spec.args, waitingFor := 0
        sleepingTime := 0, env := .setup, n := 0, i := 0, fCur := 0, fPrev := 0, keepgo := false
        freed := false } := by
  induction specs generalizing s id j with
  | nil => cases named
  | cons first rest ih =>
    cases j with
    | zero =>
      obtain rfl : first = spec := Option.some.inj named
      have own := s.threadSetup_own first.routine id first.args
      have kept := spawnThread_other (s.threadSetup first.routine id first.args) (id + 1) rest
        (Nat.lt_succ_self id)
      exact kept.trans own
    | succ j =>
      have later := ih (s.threadSetup first.routine id first.args) (id + 1)
        (by simpa using named)
      rwa [show id + 1 + j = id + (j + 1) by omega] at later

theorem spawnThread_own (s : State) (id : Nat) (specs : List Spec) {j : Nat}
    (named : specs[j]? = some spec) :
    ((Threads.spawnThread s id specs).tcbs (id + j)).routine = spec.routine ∧
      ((Threads.spawnThread s id specs).tcbs (id + j)).args = spec.args ∧
      ((Threads.spawnThread s id specs).tcbs (id + j)).env = .setup ∧
      ((Threads.spawnThread s id specs).tcbs (id + j)).freed = false := by
  rw [spawnThread_tcb s id specs named]
  exact ⟨rfl, rfl, rfl, rfl⟩

theorem start_runs (timeSlice qP qS : Int) {specs : List Spec} (few : specs.length < THREAD_MAX)
    (lower : 1 ≤ p) (named : specs[p - 1]? = some spec) :
    Runs spec (start timeSlice qP qS specs) p := by
  obtain ⟨routine, args, env, living⟩ := spawnThread_own (blank timeSlice qP qS) 1 specs named
  rw [show 1 + (p - 1) = p by omega] at routine args env living
  have kept := (start_after timeSlice qP qS few).kept.tcb p (by omega)
  have aside := (start_out timeSlice qP qS specs).2.2
  refine ⟨kept.routine.trans routine, kept.args.trans args, .fresh (kept.freed.trans living)
    (kept.env.trans env) ?_⟩
  exact List.filter_eq_nil_iff.mpr fun line member => by simp [tells_of_aside (aside line member)]

end State

open State

variable {timeSlice qP qS : Int} {specs : List Spec} {s : State}
  {guard : State → Option Signal → Prop}

theorem reach_runs (few : specs.length < THREAD_MAX)
    (sequential : ∀ spec ∈ specs, spec.Sequential)
    (reached : (machine timeSlice qP qS specs).Reach guard s) :
    ∀ p spec, 1 ≤ p → specs[p - 1]? = some spec → Runs spec s p := by
  refine reached.invariant
    (fun s => ∀ p spec, 1 ≤ p → specs[p - 1]? = some spec → Runs spec s p) ?_ ?_
  · intro state initial p spec lower named
    have same : state = start timeSlice qP qS specs := initial
    rw [same]
    exact start_runs timeSlice qP qS few lower named
  · intro state pending next prior runs _ steps
    exact Runs.step (reach_consistent few prior) sequential runs steps

/-- Whoever has not exited when the scheduler returns is parked. -/
theorem waiting_of_returned (few : specs.length < THREAD_MAX)
    (reached : (machine timeSlice qP qS specs).Reach guard s) :
    s.returned = true → ∀ p, s.Alive specs.length p → p ∈ s.waitingQueue.contents := by
  refine reached.invariant
    (fun s => s.returned = true → ∀ p, s.Alive specs.length p → p ∈ s.waitingQueue.contents) ?_ ?_
  · intro state initial returned
    have same : state = start timeSlice qP qS specs := initial
    rw [same] at returned ⊢
    exact ((start_after timeSlice qP qS few).finished returned).1
  · intro state pending next prior _ _ steps returned
    obtain ⟨_, _, _, _, moved⟩ := (reach_consistent few prior).step steps
    exact (moved.finished returned).1

/-- What a `fibonacci` or `pm` thread has printed, and the variables of its loop. -/
structure InOrder (spec : Spec) (s : State) (p : Nat) : Prop where
  lines : s.told p <+: spec.reference p spec.turns ++ [.exit p]
  finished : s.returned = true → s.told p = spec.reference p spec.turns ++ [.exit p]
  ints : (s.tcbs p).freed = false → (s.tcbs p).env = .setup ∨
    ∃ k, k ≤ spec.turns ∧ (s.tcbs p).i = k ∧ (s.tcbs p).fCur = spec.value k ∧
      ∀ j, j ≤ spec.turns → INT_MIN ≤ spec.value j ∧ spec.value j ≤ INT_MAX

/-- Preemption transparency: whatever signals are pending, every thread prints its values in
order and each of them once, then exits, and has done so when the scheduler returns; no value
overflows an `int`. -/
theorem values_in_order (few : specs.length < THREAD_MAX)
    (sequential : ∀ spec ∈ specs, spec.Sequential)
    (reached : (machine timeSlice qP qS specs).Reach Machine.anyStep s) {p : Nat} {spec : Spec}
    (lower : 1 ≤ p) (named : specs[p - 1]? = some spec) : InOrder spec s p := by
  have cons := reach_consistent few reached
  have runs := reach_runs few sequential reached p spec lower named
  have valid := sequential spec (List.mem_of_getElem? named)
  refine ⟨?_, fun returned => ?_, fun living => ?_⟩
  · cases runs.progress with
    | fresh _ _ told =>
      rw [told]
      exact List.nil_prefix
    | behind _ _ _ more _ told =>
      rw [told]
      exact (spec.reference_prefix p (Nat.le_of_lt more)).trans (List.prefix_append ..)
    | exited _ told =>
      rw [told]
  · -- Nobody parks without `enroll`, so everybody has exited.
    have bound : p - 1 < specs.length := (List.getElem?_eq_some_iff.mp named).1
    have alive : (s.tcbs p).freed = false → (s.tcbs p).Parked := fun living =>
      cons.parked p (waiting_of_returned few reached returned p ⟨lower, by omega, living⟩)
    cases runs.progress with
    | fresh living env =>
      rcases alive living with ⟨_, parked⟩ | ⟨_, parked⟩ <;> rw [env] at parked <;> cases parked
    | behind living env =>
      rcases alive living with ⟨_, parked⟩ | ⟨_, parked⟩ <;> rw [env] at parked <;> cases parked
    | exited _ told => exact told
  · cases runs.progress with
    | fresh _ env => exact .inl env
    | @behind k _ _ _ more locals =>
      simp only [Tcb.locals, Prod.mk.injEq] at locals
      obtain ⟨_, i, value, _⟩ := locals
      exact .inr ⟨k, Nat.le_of_lt more, i, value, fun j inside => valid.value_bounds inside⟩
    | exited gone => exact absurd (living.symm.trans gone) (by decide)

/-- A `fibonacci` and a `pm` thread that are both preempted after every value. -/
theorem values_in_order_preempted :
    ∃ s, (machine 1 0 0 [.fibonacci 3, .pm 2]).Reach Machine.anyStep s ∧ s.returned = true ∧
      s.told 1 = [.fibonacci 1 1 1, .fibonacci 1 2 1, .fibonacci 1 3 2, .exit 1] ∧
      InOrder (.fibonacci 3) s 1 ∧ InOrder (.pm 2) s 2 := by
  have ran : ((machine 1 0 0 [.fibonacci 3, .pm 2]).exec (fun _ _ => true)
      (start 1 0 0 [.fibonacci 3, .pm 2])
      [some .SIGTSTP, some .SIGALRM, some .SIGTSTP, none, none]).map
        (fun s => (s.returned, s.told 1)) =
          some (true, [.fibonacci 1 1 1, .fibonacci 1 2 1, .fibonacci 1 3 2, .exit 1]) := by
    decide +kernel
  obtain ⟨s, runs, result⟩ := Option.map_eq_some_iff.mp ran
  obtain ⟨returned, told⟩ := Prod.mk.inj result
  have reached : (machine 1 0 0 [.fibonacci 3, .pm 2]).Reach Machine.anyStep s :=
    (Machine.Reach.initial rfl).exec (fun _ _ _ => trivial) runs
  have sequential : ∀ spec ∈ [Spec.fibonacci 3, .pm 2], spec.Sequential := by
    intro spec member
    simp only [List.mem_cons, List.not_mem_nil, or_false] at member
    rcases member with rfl | rfl <;> exact ⟨by decide, by decide⟩
  exact ⟨s, reached, returned, told,
    values_in_order (by decide) sequential reached (by decide) rfl,
    values_in_order (by decide) sequential reached (by decide) rfl⟩

end NTUSP.Threads
