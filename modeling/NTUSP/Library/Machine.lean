import Mathlib.Tactic.Common

/-!
# Machines with chosen actions

A machine is a partial step function over explicit actions: every schedule,
signal or input the environment picks is an action, so a run is a list of
actions. `Machine.Reach` collects the states of the runs whose every step meets
a guard, and `Machine.exec` runs a list of actions. `Machine.recording` adds a history
that no step reads. No program is named here.
-/

namespace NTUSP.Library

universe u v

/-- A state machine: its initial states, and the successor an action leads to
when the action is possible. -/
structure Machine (State : Type u) (Action : Type v) where
  Initial : State → Prop
  step : State → Action → Option State

namespace Machine

variable {State : Type u} {Action : Type v} (machine : Machine State Action)

/-- States reached by the runs in which every step meets `guard`, a condition on
the state before the step and the chosen action. -/
inductive Reach (guard : State → Action → Prop) : State → Prop where
  | initial {state} (valid : machine.Initial state) : Reach guard state
  | step {state action next} (prior : Reach guard state) (allowed : guard state action)
      (transition : machine.step state action = some next) : Reach guard next

/-- The guard every step meets. -/
def anyStep : State → Action → Prop := fun _ _ => True

/-- The machine started in a given state. -/
def startAt (state : State) : Machine State Action :=
  { machine with Initial := fun first => first = state }

/-- Run a list of actions whose every step passes the Boolean `guard`. -/
def exec (guard : State → Action → Bool) : State → List Action → Option State
  | state, [] => some state
  | state, action :: rest =>
      if guard state action then
        (machine.step state action).bind fun next => exec guard next rest
      else none

variable {machine}

/-- Invariant rule: what holds initially and survives every guarded step holds
in every state the guarded runs reach. The step premise may also use that the
state before it was reached. -/
theorem Reach.invariant {guard : State → Action → Prop} (Inv : State → Prop)
    (initially : ∀ state, machine.Initial state → Inv state)
    (preserved : ∀ state action next, machine.Reach guard state → Inv state →
      guard state action → machine.step state action = some next → Inv next)
    {state : State} (reached : machine.Reach guard state) : Inv state := by
  induction reached with
  | initial valid => exact initially _ valid
  | step prior allowed transition ih => exact preserved _ _ _ prior ih allowed transition

/-- A weaker guard reaches at least the same states. -/
theorem Reach.mono {guard guard' : State → Action → Prop}
    (weaker : ∀ state action, guard state action → guard' state action) {state : State}
    (reached : machine.Reach guard state) : machine.Reach guard' state := by
  induction reached with
  | initial valid => exact .initial valid
  | step _ allowed transition ih => exact .step ih (weaker _ _ allowed) transition

/-- A finished execution continues every run that reaches its first state. -/
theorem Reach.exec {guard : State → Action → Prop} {check : State → Action → Bool}
    (sound : ∀ state action, check state action = true → guard state action)
    {actions : List Action} {state final : State} (reached : machine.Reach guard state)
    (runs : machine.exec check state actions = some final) : machine.Reach guard final := by
  induction actions generalizing state with
  | nil =>
      cases runs
      exact reached
  | cons action rest ih =>
      simp only [Machine.exec] at runs
      split at runs
      · rename_i passed
        obtain ⟨next, transition, runs⟩ := Option.bind_eq_some_iff.mp runs
        exact ih (.step reached (sound _ _ passed) transition) runs
      · cases runs

/-- An execution from an initial state whose steps are checked against the guard itself ends
in a state the guarded runs reach, with what is computed of it there. -/
theorem Reach.of_ran {guard : State → Action → Prop}
    [∀ state action, Decidable (guard state action)] {Value : Type*} {observe : State → Value}
    {value : Value} {first : State} {actions : List Action} (valid : machine.Initial first)
    (ran : (machine.exec (fun state action => guard state action) first actions).map observe =
      some value) : ∃ final, machine.Reach guard final ∧ observe final = value := by
  obtain ⟨final, runs, observed⟩ := Option.map_eq_some_iff.mp ran
  have start : machine.Reach guard first := .initial valid
  exact ⟨final, start.exec (fun _ _ passed => of_decide_eq_true passed) runs, observed⟩

/-! ## Histories -/

section History

universe w

variable {Event : Type w} {events : State → Action → List Event}
  {guard : State → Action → Prop}

variable (machine events) in
/-- The machine with the events of its steps kept in a list. -/
def recording : Machine (State × List Event) Action where
  Initial state := machine.Initial state.1 ∧ state.2 = []
  step state action :=
    (machine.step state.1 action).map fun next => (next, state.2 ++ events state.1 action)

/-- A step with a history is a step, and appends its events. -/
theorem recording_step {state next : State × List Event} {action : Action}
    (transition : (machine.recording events).step state action = some next) :
    machine.step state.1 action = some next.1 ∧ next.2 = state.2 ++ events state.1 action := by
  obtain ⟨after, stepped, same⟩ := Option.map_eq_some_iff.mp transition
  subst same
  exact ⟨stepped, rfl⟩

/-- Forgetting the history. -/
theorem Reach.forget {state : State × List Event}
    (reached : (machine.recording events).Reach (fun state => guard state.1) state) :
    machine.Reach guard state.1 := by
  induction reached with
  | initial valid => exact .initial valid.1
  | step _ allowed transition ih => exact .step ih allowed (recording_step transition).1

/-- Every state reached has a history. -/
theorem Reach.recorded {state : State} (reached : machine.Reach guard state) :
    ∃ history, (machine.recording events).Reach (fun state => guard state.1) (state, history) := by
  induction reached with
  | initial valid => exact ⟨[], .initial ⟨valid, rfl⟩⟩
  | @step state action next _ allowed transition ih =>
      obtain ⟨history, recorded⟩ := ih
      refine ⟨history ++ events state action, .step recorded allowed ?_⟩
      simp only [recording, transition, Option.map_some]

variable (machine) in
/-- The machine with the steps made so far. -/
def tracing : Machine (State × List (State × Action)) Action :=
  machine.recording fun state action => [(state, action)]

/-- The actions of a finished execution are kept in order. -/
theorem exec_tracing {check : State × List (State × Action) → Action → Bool}
    {actions : List Action} {state final : State × List (State × Action)}
    (runs : machine.tracing.exec check state actions = some final) :
    final.2.map Prod.snd = state.2.map Prod.snd ++ actions := by
  induction actions generalizing state with
  | nil =>
      cases runs
      exact (List.append_nil _).symm
  | cons action rest ih =>
      simp only [Machine.exec] at runs
      split at runs
      · obtain ⟨next, transition, runs⟩ := Option.bind_eq_some_iff.mp runs
        rw [ih runs, (recording_step transition).2]
        simp
      · cases runs

/-- Every step of a run was possible in a state reached before it. -/
theorem Reach.of_mem_trace {state : State × List (State × Action)}
    (reached : machine.tracing.Reach (fun state => guard state.1) state)
    {prior : State} {action : Action} (member : (prior, action) ∈ state.2) :
    machine.Reach guard prior ∧ guard prior action ∧
      ∃ next, machine.step prior action = some next := by
  induction reached with
  | initial valid =>
      rw [valid.2] at member
      cases member
  | @step before action' next earlier allowed transition ih =>
      obtain ⟨stepped, grown⟩ := recording_step transition
      rw [grown, List.mem_append, List.mem_singleton] at member
      rcases member with old | new
      · exact ih old
      · obtain ⟨rfl, rfl⟩ := Prod.mk.inj new
        exact ⟨earlier.forget, allowed, _, stepped⟩

end History

/-! ## Values beside the state -/

section Beside

universe w

variable {Beside : Type w} {first : Beside} {update : State → Action → Beside → Beside}
  {guard : State × Beside → Action → Prop}

variable (machine first update) in
/-- The machine beside a value that no step reads, such as a clock. -/
def beside : Machine (State × Beside) Action where
  Initial state := machine.Initial state.1 ∧ state.2 = first
  step state action :=
    (machine.step state.1 action).map fun next => (next, update state.1 action state.2)

theorem beside_initial {state : State} (valid : machine.Initial state) :
    (machine.beside first update).Initial (state, first) :=
  ⟨valid, rfl⟩

/-- A step beside a value is a step, and updates the value. -/
theorem beside_step {state next : State × Beside} {action : Action}
    (transition : (machine.beside first update).step state action = some next) :
    machine.step state.1 action = some next.1 ∧ next.2 = update state.1 action state.2 := by
  obtain ⟨after, stepped, same⟩ := Option.map_eq_some_iff.mp transition
  subst same
  exact ⟨stepped, rfl⟩

/-- Forgetting the value. -/
theorem Reach.aside {state : State × Beside}
    (reached : (machine.beside first update).Reach guard state) :
    machine.Reach anyStep state.1 := by
  induction reached with
  | initial valid => exact .initial valid.1
  | step _ _ transition ih => exact .step ih trivial (beside_step transition).1

end Beside

/-! ## Progress -/

/-- However the allowed actions are chosen, the run comes to a state with `goal`, and it is
not stuck before. -/
inductive Inevitable (machine : Machine State Action) (allowed : State → Action → Prop)
    (goal : State → Prop) : State → Prop where
  | now {state} (done : goal state) : Inevitable machine allowed goal state
  | later {state}
      (possible : ∃ action next, allowed state action ∧ machine.step state action = some next)
      (always : ∀ action next, allowed state action → machine.step state action = some next →
        Inevitable machine allowed goal next) : Inevitable machine allowed goal state

/-- What follows from an inevitable goal is inevitable. -/
theorem Inevitable.mono {allowed : State → Action → Prop} {goal goal' : State → Prop}
    (follows : ∀ state, goal state → goal' state) {state : State}
    (inevitable : machine.Inevitable allowed goal state) :
    machine.Inevitable allowed goal' state := by
  induction inevitable with
  | now done => exact .now (follows _ done)
  | later possible _ ih => exact .later possible ih

/-- Variant rule: outside the goal some action is possible, and every one decreases a measure
and keeps the invariant unless it reaches the goal. -/
theorem Inevitable.of_variant {allowed : State → Action → Prop} {goal : State → Prop}
    {Measure : Type*} {less : Measure → Measure → Prop} (wellFounded : WellFounded less)
    (Inv : Measure → State → Prop)
    (possible : ∀ measure state, Inv measure state →
      ∃ action next, allowed state action ∧ machine.step state action = some next)
    (decreases : ∀ measure state action next, Inv measure state → allowed state action →
      machine.step state action = some next →
        goal next ∨ ∃ measure', less measure' measure ∧ Inv measure' next)
    (measure : Measure) {state : State} (valid : Inv measure state) :
    machine.Inevitable allowed goal state := by
  induction measure using wellFounded.induction generalizing state with
  | _ measure ih =>
      refine .later (possible measure state valid) fun action next permitted transition => ?_
      rcases decreases measure state action next valid permitted transition with
        done | ⟨measure', smaller, still⟩
      · exact .now done
      · exact ih measure' smaller still

end Machine
end NTUSP.Library
