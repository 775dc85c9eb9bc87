import NTUSP.Threads.Slots
import NTUSP.Threads.Values

/-!
# The arithmetic of `pm`

The loop of `pm` with the `int` operations of C, any of which may overflow. None does: the
terms grow up to the largest `int`, but they alternate in sign, so that the sums stay at half
of it. A thread that runs `pm` next to any others makes exactly these turns.
-/

namespace NTUSP.Threads

open NTUSP.Library

namespace Tcb

/-- The head of the loop of `pm`; `none` when `i++` overflows. -/
def pmHead (tcb : Tcb) : Option Tcb :=
  match tcb.env with
  | .setup => some { tcb with n := tcb.args.getD 0 0, i := 1 }
  | _ => do
      let i ← int32 (tcb.i + 1)
      return { tcb with i := i }

/-- The body of the loop of `pm`; `none` when the term or the sum overflows. -/
def pmBody (tcb : Tcb) : Option Tcb :=
  if tcb.i = 1 then some { tcb with fCur := 1, fPrev := 1 }
  else do
    let term ← int32 ((if tcb.i % 2 = 1 then 1 else -1) * tcb.i)
    let fNext ← int32 (term + tcb.fCur)
    return { tcb with fPrev := tcb.fCur, fCur := fNext }

/-- One turn of the loop of `pm`. -/
def pmTurn (tcb : Tcb) : Option Tcb := tcb.pmHead.bind pmBody

/-- The first turns of the loop, each with the yield at its end. -/
def pmTurns (tcb : Tcb) : Nat → Option Tcb
  | 0 => some tcb
  | k + 1 => do
      let before ← tcb.pmTurns k
      let turned ← before.pmTurn
      return { turned with env := .yield 0 }

/-- The thread stands behind value `k` of `pm`. -/
structure AtValue (n : Int) (k : Nat) (tcb : Tcb) : Prop where
  bound : tcb.n = n
  counter : tcb.i = k
  value : tcb.fCur = pmValue k

/-- Value `i` of `pm` in closed form. -/
def pmClosed (i : Nat) : Int := if i % 2 = 1 then ((i : Int) + 1) / 2 else -((i : Int) / 2)

variable {tcb : Tcb} {n : Int} {k : Nat}

theorem pmHead_setup (env : tcb.env = .setup) :
    tcb.pmHead = some { tcb with n := tcb.args.getD 0 0, i := 1 } := by
  unfold pmHead
  split
  · rfl
  · rename_i other
    exact absurd env other

theorem pmHead_later (env : tcb.env ≠ .setup) :
    tcb.pmHead = (int32 (tcb.i + 1)).map fun i => { tcb with i := i } := by
  unfold pmHead
  split
  · rename_i setup
    exact absurd setup env
  · cases int32 (tcb.i + 1) <;> rfl

/-- The first turn sets the loop up. -/
theorem pmTurn_first (env : tcb.env = .setup) (args : tcb.args = [n]) :
    ∃ turned, tcb.pmTurn = some turned ∧ AtValue n 1 turned ∧ tcb.Kept turned := by
  refine ⟨{ tcb with n := n, i := 1, fCur := 1, fPrev := 1 }, ?_, ⟨rfl, rfl, rfl⟩, ?_⟩
  · simp [pmTurn, pmHead, pmBody, env, args]
  · exact ⟨rfl, rfl, rfl, rfl, rfl, rfl⟩

/-- A turn behind value `k` goes on to the next one, within the `int`s. -/
theorem AtValue.pmTurn (at_value : AtValue n k tcb) (env : tcb.env ≠ .setup) (begun : 1 ≤ k)
    (inside : (k : Int) < n) (upper : n ≤ INT_MAX) :
    ∃ turned, tcb.pmTurn = some turned ∧ AtValue n (k + 1) turned ∧ tcb.Kept turned := by
  have small : n ≤ 2147483647 := upper
  have before := pmValue_bounds k
  have after := pmValue_bounds (k + 1)
  have counted : int32 (tcb.i + 1) = some ((k : Int) + 1) := by
    rw [at_value.counter]
    exact int32_of_bounds (by unfold INT_MIN; omega) (by omega)
  have head : tcb.pmHead = some { tcb with i := (k : Int) + 1 } := by
    rw [pmHead_later env, counted]
    rfl
  -- The sign of the term is that of the last bit of the counter.
  have signed : ∃ term : Int, (if ((k : Int) + 1) % 2 = 1 then 1 else -1) * ((k : Int) + 1) = term ∧
      INT_MIN ≤ term ∧ term ≤ INT_MAX ∧ term + pmValue k = pmValue (k + 1) := by
    unfold INT_MIN INT_MAX
    refine ⟨_, rfl, ?_⟩
    rw [before, after]
    by_cases odd : (k + 1) % 2 = 1
    · rw [if_pos (by omega), if_neg (by omega), if_pos odd]
      refine ⟨?_, ?_, ?_⟩ <;> omega
    · rw [if_neg (by omega), if_pos (by omega), if_neg odd]
      refine ⟨?_, ?_, ?_⟩ <;> omega
  obtain ⟨term, product, lowest, highest, sum⟩ := signed
  have added : int32 (term + tcb.fCur) = some (pmValue (k + 1)) := by
    rw [at_value.value, sum]
    apply int32_of_bounds
    · unfold INT_MIN
      split at after <;> omega
    · unfold INT_MAX
      split at after <;> omega
  refine ⟨{ tcb with i := (k : Int) + 1, fPrev := tcb.fCur, fCur := pmValue (k + 1) }, ?_,
    ⟨at_value.bound, by simp, rfl⟩, ⟨rfl, rfl, rfl, rfl, rfl, rfl⟩⟩
  have later : ¬ (k : Int) + 1 = 1 := by omega
  simp only [Tcb.pmTurn, head, Option.bind_some, pmBody, if_neg later, product,
    int32_of_bounds lowest highest, added, Option.bind_eq_bind]
  rfl

/-- The loop comes to every value up to the last. -/
theorem pmTurns_eq (env : tcb.env = .setup) (args : tcb.args = [n]) (upper : n ≤ INT_MAX)
    (begun : 1 ≤ k) (inside : (k : Int) ≤ n) :
    ∃ turned, tcb.pmTurns k = some turned ∧ AtValue n k turned ∧ turned.env = .yield 0 := by
  induction k with
  | zero => omega
  | succ k ih =>
    by_cases first : k = 0
    · subst first
      obtain ⟨turned, computed, at_value, _⟩ := pmTurn_first env args
      refine ⟨{ turned with env := .yield 0 }, ?_, ⟨at_value.bound, at_value.counter,
        at_value.value⟩, rfl⟩
      simp [pmTurns, computed]
    · obtain ⟨before, ran, at_value, yielded⟩ := ih (by omega) (by omega)
      obtain ⟨turned, computed, next, _⟩ :=
        at_value.pmTurn (by simp [yielded]) (by omega) (by omega) upper
      refine ⟨{ turned with env := .yield 0 }, ?_, ⟨next.bound, next.counter, next.value⟩, rfl⟩
      simp [pmTurns, ran, computed]

/-- How far a thread is in `pm`. -/
inductive PmProgress (n : Int) (tcb : Tcb) : Prop where
  | fresh (env : tcb.env = .setup)
  | behind {k : Nat} (env : tcb.env = .yield 0) (begun : 1 ≤ k) (more : (k : Int) < n)
      (at_value : AtValue n k tcb)
  | exited (gone : tcb.freed = true)

/-- The thread runs `pm` with argument `n`. -/
structure RunsPm (n : Int) (tcb : Tcb) : Prop where
  routine : tcb.routine = .pm
  args : tcb.args = [n]
  progress : PmProgress n tcb

/-- Only what the thread itself writes matters. -/
theorem RunsPm.of_kept {old new : Tcb} (runs : old.RunsPm n) (kept : old.Kept new)
    (locals : new.locals = old.locals) : new.RunsPm n where
  routine := kept.routine.trans runs.routine
  args := kept.args.trans runs.args
  progress := by
    cases runs.progress with
    | fresh env => exact .fresh (kept.env.trans env)
    | behind env begun more at_value =>
      simp only [Tcb.locals, Prod.mk.injEq] at locals
      obtain ⟨bound, counter, value, _⟩ := locals
      exact .behind (kept.env.trans env) begun more
        ⟨bound.trans at_value.bound, counter.trans at_value.counter, value.trans at_value.value⟩
    | exited gone => exact .exited (kept.freed.trans gone)

/-- The next turn of a thread that has not exited. -/
theorem RunsPm.turn (runs : tcb.RunsPm n) (lower : 1 ≤ n) (upper : n ≤ INT_MAX)
    (living : tcb.freed = false) :
    ∃ (i : Nat) (turned : Tcb), tcb.pmTurn = some turned ∧ 1 ≤ i ∧ (i : Int) ≤ n ∧
      AtValue n i turned ∧ tcb.Kept turned := by
  cases runs.progress with
  | fresh env =>
    obtain ⟨turned, computed, at_value, kept⟩ := pmTurn_first env runs.args
    exact ⟨1, turned, computed, Nat.le_refl 1, lower, at_value, kept⟩
  | @behind k env begun more at_value =>
    obtain ⟨turned, computed, next, kept⟩ := at_value.pmTurn (by simp [env]) begun more upper
    exact ⟨k + 1, turned, computed, by omega, by omega, next, kept⟩
  | exited gone => exact absurd (living.symm.trans gone) (by decide)

end Tcb

namespace State

variable {s t v : State} {tcb : Tcb} {n : Int} {p count : Nat} {pending : Option Signal}
  {jump : Jump}

theorem loopHead_setup (env : s.current.env = .setup) : s.loopHead =
    s.setCurrent { s.current with n := s.current.args.getD 0 0, i := 1 } := by
  unfold loopHead
  split
  · rfl
  · rename_i other
    exact absurd env other

theorem loopHead_later (env : s.current.env ≠ .setup) :
    s.loopHead = s.setCurrent { s.current with i := s.current.i + 1 } := by
  unfold loopHead
  split
  · rename_i setup
    exact absurd setup env
  · rfl

/-- A turn that does not overflow is the turn of the program. -/
theorem pmRound_of_pmTurn (computed : s.current.pmTurn = some tcb) :
    s.loopHead.pmRound = (s.setCurrent tcb).print (.pm tcb.id tcb.i tcb.fCur) := by
  obtain ⟨begun, head, body⟩ := Option.bind_eq_some_iff.mp computed
  have started : s.loopHead = s.setCurrent begun := by
    by_cases env : s.current.env = .setup
    · rw [Tcb.pmHead_setup env] at head
      rw [loopHead_setup env, Option.some.inj head]
    · rw [Tcb.pmHead_later env] at head
      obtain ⟨i, counted, same⟩ := Option.map_eq_some_iff.mp head
      rw [loopHead_later env, ← same, int32_eq counted]
  have turned : (if begun.i = 1 then { begun with fCur := 1, fPrev := 1 }
      else
        { begun with
          fPrev := begun.fCur
          fCur := (if begun.i % 2 = 1 then 1 else -1) * begun.i + begun.fCur } : Tcb) = tcb := by
    unfold Tcb.pmBody at body
    split at body
    · rename_i first
      rw [if_pos first]
      exact Option.some.inj body
    · rename_i later
      rw [if_neg later]
      obtain ⟨term, product, rest⟩ := Option.bind_eq_some_iff.mp body
      obtain ⟨fNext, sum, same⟩ := Option.bind_eq_some_iff.mp rest
      rw [← Option.some.inj same, int32_eq sum, int32_eq product]
  have printed : begun.id = tcb.id ∧ begun.i = tcb.i := by
    rw [← turned]
    split <;> exact ⟨rfl, rfl⟩
  rw [started]
  unfold pmRound
  simp only [setCurrent_current]
  rw [turned, setCurrent_setCurrent, printed.1, printed.2]

/-- A jump does not touch the loop variables of any thread. -/
theorem jump_locals (created : p ≠ 0) :
    ((s.jump pending jump).tcbs p).locals = (s.tcbs p).locals := by
  cases jump with
  | yield k => exact (s.threadYield_quiet k pending).locals p created
  | exit =>
    rw [jump, threadExit]
    exact (scheduler_quiet (s.print (.exit s.current.id)) 3).locals p created
  | sleep seconds =>
    rw [jump]
    exact (s.threadSleep_quiet seconds).locals p created
  | park env resource =>
    rw [jump]
    exact (s.park_quiet env resource).locals p created

/-- Up to its jump a thread touches no loop variables but its own. -/
theorem Ends.locals (ends : s.Ends v jump) (created : p ≠ 0) (other : p ≠ s.currentThread) :
    (v.tcbs p).locals = (s.tcbs p).locals := by
  have kept : ∀ {t : State}, s.Computed t → (t.tcbs p).locals = (s.tcbs p).locals := by
    rintro t ⟨tcb, out, _, rfl⟩
    exact congrArg Tcb.locals (Function.update_of_ne other ..)
  cases ends with
  | compute k computed => exact kept computed
  | finish _ computed => exact kept computed
  | sleep => rfl
  | readPark _ _ _ woken => exact (threadAwake_quiet woken).locals p created
  | readTake _ _ _ woken => exact (threadAwake_quiet woken).locals p created
  | release => rfl
  | writePark => rfl
  | writeTake => rfl
  | leave => rfl

/-- What the running `pm` thread does. -/
theorem body_pm (running : s.returned = false) (routine : s.current.routine = .pm)
    (computed : s.current.pmTurn = some tcb) :
    s.body = some ((s.setCurrent tcb).print (.pm tcb.id tcb.i tcb.fCur),
      if tcb.i = tcb.n then .exit else .yield 0) := by
  have round := pmRound_of_pmTurn computed
  unfold body
  rw [running, routine, round]
  simp [turnJump, State.print, current, State.setCurrent, setTcb]

/-- The running `pm` thread makes its next turn, and then exits or yields. -/
theorem step_pm (running : s.returned = false) (routine : s.current.routine = .pm)
    (computed : s.current.pmTurn = some tcb) (pending : Option Signal) :
    s.step pending =
      some (((s.setCurrent tcb).print (.pm tcb.id tcb.i tcb.fCur)).finishTurn pending) := by
  rw [step_eq_body, body_pm running routine computed, Option.map_some, ← jump_turnJump]
  simp [turnJump, State.print, current, State.setCurrent, setTcb]

/-- The end of a turn, after which the thread is behind its value or has exited. -/
theorem runsPm_finishTurn {i : Nat} {turned : Tcb} (cons : v.Consistent count)
    (before : v.returned = false) (created : v.currentThread ≠ 0) (own : v.current = turned)
    (routine : turned.routine = .pm) (args : turned.args = [n]) (first : 1 ≤ i)
    (last : (i : Int) ≤ n) (at_value : turned.AtValue n i) :
    ((v.finishTurn pending).tcbs v.currentThread).RunsPm n := by
  subst own
  unfold finishTurn
  split
  · have after := cons.entered.threadExit cons.running before
    have kept := after.kept.tcb _ created
    have left : (v.setCurrent { v.current with freed := true }).tcbs v.currentThread =
        { v.current with freed := true } := v.setCurrent_current _
    rw [left] at kept
    exact ⟨kept.routine.trans routine, kept.args.trans args, .exited kept.freed⟩
  · rename_i more
    rw [at_value.bound, at_value.counter] at more
    have after : After count _ (v.threadYield 0 pending) := cons.threadYield before
    have kept := after.kept.tcb _ created
    have left : (v.setCurrent { v.current with env := .yield 0 }).tcbs v.currentThread =
        { v.current with env := .yield 0 } := v.setCurrent_current _
    rw [left] at kept
    have locals := (v.threadYield_quiet 0 pending).locals _ created
    have runs : ({ v.current with env := .yield 0 } : Tcb).RunsPm n :=
      ⟨routine, args, .behind rfl first (by omega)
        ⟨at_value.bound, at_value.counter, at_value.value⟩⟩
    exact runs.of_kept kept locals

/-- Every step of the program keeps a `pm` thread in its loop. -/
theorem runsPm_step (cons : s.Consistent count) (lower : 1 ≤ n) (upper : n ≤ INT_MAX)
    (created : p ≠ 0) (runs : (s.tcbs p).RunsPm n) (steps : s.step pending = some t) :
    (t.tcbs p).RunsPm n := by
  have running : s.returned = false := (step_cases steps).1
  by_cases other : p ≠ s.currentThread
  · obtain ⟨_, _, _, _, moved⟩ := cons.step steps
    obtain ⟨v, jump, ran, rfl⟩ := body_of_step steps
    exact runs.of_kept (moved.others p created other)
      ((jump_locals created).trans ((ends_of_body ran).locals created other))
  · have here : p = s.currentThread := Classical.not_not.mp other
    subst here
    obtain ⟨i, turned, computed, first, last, at_value, kept⟩ :=
      runs.turn lower upper (cons.current_freed created)
    have next : ((s.setCurrent turned).print (.pm turned.id turned.i turned.fCur)).Consistent
        count := cons.computed (s.computed_print turned kept _)
    have own : ((s.setCurrent turned).print (.pm turned.id turned.i turned.fCur)).current =
        turned := s.setCurrent_current turned
    rw [step_pm running runs.routine computed, Option.some.injEq] at steps
    subst steps
    have before : ((s.setCurrent turned).print (.pm turned.id turned.i turned.fCur)).returned =
        false := running
    exact runsPm_finishTurn next before created own (kept.routine.trans runs.routine)
      (kept.args.trans runs.args) first last at_value

end State

open State

variable {timeSlice qP qS : Int} {specs : List Spec} {s : State} {n : Int} {p : Nat}
  {guard : State → Option Signal → Prop}

/-- Next to any other threads, a thread created for `pm` stays in its loop. -/
theorem reach_runsPm (few : specs.length < THREAD_MAX) (lower : 1 ≤ n) (upper : n ≤ INT_MAX)
    (reached : (machine timeSlice qP qS specs).Reach guard s) (created : 1 ≤ p)
    (named : specs[p - 1]? = some (.pm n)) : (s.tcbs p).RunsPm n := by
  refine reached.invariant (fun s => (s.tcbs p).RunsPm n) ?_ ?_
  · intro state initial
    have same : state = start timeSlice qP qS specs := initial
    rw [same]
    obtain ⟨routine, args, env, _⟩ := spawnThread_own (blank timeSlice qP qS) 1 specs named
    rw [show 1 + (p - 1) = p by omega] at routine args env
    have kept := (start_after timeSlice qP qS few).kept.tcb p (by omega)
    exact ⟨kept.routine.trans routine, kept.args.trans args, .fresh (kept.env.trans env)⟩
  · intro state pending next prior runs _ steps
    exact runsPm_step (reach_consistent few prior) lower upper (by omega) runs steps

/-- For every argument of `pm` up to the largest `int`, no operation of any of its turns
overflows, and turn `i` computes the value of the closed form. In every run, next to any other
threads, a thread created for `pm` makes these turns and prints these values. -/
theorem pm_in_range (lower : 1 ≤ n) (upper : n ≤ INT_MAX) :
    (∀ tcb : Tcb, tcb.env = .setup → tcb.args = [n] → ∀ i : Nat, 1 ≤ i → (i : Int) ≤ n →
      ∃ turned, tcb.pmTurns i = some turned ∧ turned.i = i ∧ turned.fCur = Tcb.pmClosed i) ∧
    ∀ (timeSlice qP qS : Int) (specs : List Spec) (s : State), specs.length < THREAD_MAX →
      (machine timeSlice qP qS specs).Reach Machine.anyStep s → s.returned = false →
      1 ≤ s.currentThread → specs[s.currentThread - 1]? = some (.pm n) →
      ∃ (i : Nat) (turned : Tcb), 1 ≤ i ∧ (i : Int) ≤ n ∧ s.current.pmTurn = some turned ∧
        turned.n = n ∧ turned.i = i ∧ turned.fCur = Tcb.pmClosed i ∧
        ∀ pending, s.step pending =
          some (((s.setCurrent turned).print
            (.pm s.currentThread i (Tcb.pmClosed i))).finishTurn pending) := by
  constructor
  · intro tcb env args i first last
    obtain ⟨turned, ran, at_value, _⟩ := Tcb.pmTurns_eq env args upper first last
    exact ⟨turned, ran, at_value.counter, at_value.value.trans (pmValue_bounds i)⟩
  · intro timeSlice qP qS specs s few reached running created named
    have cons := reach_consistent few reached
    have runs := reach_runsPm few lower upper reached created named
    obtain ⟨i, turned, computed, first, last, at_value, kept⟩ :=
      runs.turn lower upper (cons.current_freed (by omega))
    have value : turned.fCur = Tcb.pmClosed i := at_value.value.trans (pmValue_bounds i)
    refine ⟨i, turned, first, last, computed, at_value.bound, at_value.counter, value, ?_⟩
    intro pending
    have id : turned.id = s.currentThread := kept.id.trans (cons.accounted.ids _)
    rw [step_pm running runs.routine computed, id, at_value.counter, value]

/-- The first turn with the largest argument, next to a student. -/
theorem pm_in_range_largest : ∃ turned,
    (start 1 0 0 [.pm INT_MAX, .enroll 1 1 0 1]).current.pmTurn = some turned ∧
      turned.n = INT_MAX ∧ turned.fCur = 1 := by
  have running : (start 1 0 0 [.pm INT_MAX, .enroll 1 1 0 1]).returned = false := by
    decide +kernel
  have first : (start 1 0 0 [.pm INT_MAX, .enroll 1 1 0 1]).currentThread = 1 := by
    decide +kernel
  obtain ⟨i, turned, begun, _, computed, bound, counter, value, _⟩ :=
    (pm_in_range (n := INT_MAX) (by decide) (by decide)).2 1 0 0
      [.pm INT_MAX, .enroll 1 1 0 1] _ (by decide) (.initial rfl) running
      (by rw [first]) (by rw [first]; rfl)
  have fresh : (start 1 0 0 [.pm INT_MAX, .enroll 1 1 0 1]).current.pmTurn.map Tcb.i = some 1 := by
    decide +kernel
  rw [computed, Option.map_some, counter] at fresh
  have one : i = 1 := by simpa using fresh
  subst one
  exact ⟨turned, computed, bound, value⟩

end NTUSP.Threads
