import NTUSP.Library.Machine

/-!
# Refinement between machines

A machine refines another one along a relation of their states if every step it makes under its
guard is matched by some steps of the other one. What holds in all states the other one reaches
then holds of what it represents. The matching steps may be chosen freely (`Refines`), or be
read off the step (`Reach.followed`), which also says what the other machine's whole run is.
-/

namespace NTUSP.Library.Machine

universe u v u' v'

variable {State : Type u} {Action : Type v} {State' : Type u'} {Action' : Type v'}
  {machine : Machine State Action} {spec : Machine State' Action'}
  {guard : State → Action → Prop} {Rel : State → State' → Prop}

variable (spec) in
/-- Run a list of actions, all of them allowed. -/
def run (state : State') (actions : List Action') : Option State' :=
  spec.exec (fun _ _ => true) state actions

@[simp] theorem run_nil (state : State') : spec.run state [] = some state := rfl

@[simp] theorem run_cons (state : State') (action : Action') (rest : List Action') :
    spec.run state (action :: rest) =
      (spec.step state action).bind fun next => spec.run next rest := rfl

@[simp] theorem run_singleton (state : State') (action : Action') :
    spec.run state [action] = spec.step state action := by
  simp

theorem run_append (state : State') (first second : List Action') :
    spec.run state (first ++ second) =
      (spec.run state first).bind fun middle => spec.run middle second := by
  induction first generalizing state with
  | nil => rfl
  | cons action rest ih =>
    rw [List.cons_append, run_cons, run_cons, Option.bind_assoc]
    exact Option.bind_congr fun next _ => ih next

/-- A run continues what is reached. -/
theorem Reach.run {state final : State'} {actions : List Action'}
    (reached : spec.Reach anyStep state) (ran : spec.run state actions = some final) :
    spec.Reach anyStep final :=
  reached.exec (fun _ _ _ => trivial) ran

variable (machine guard spec Rel) in
/-- Every step of `machine` under `guard` is matched by steps of `spec`, along `Rel`. -/
structure Refines : Prop where
  start : ∀ state, machine.Initial state → ∃ state', spec.Initial state' ∧ Rel state state'
  step : ∀ state action next state', machine.Reach guard state → spec.Reach anyStep state' →
    Rel state state' → guard state action → machine.step state action = some next →
      ∃ actions next', spec.run state' actions = some next' ∧ Rel next next'

/-- Every state reached represents one that the other machine reaches. -/
theorem Refines.represented (refines : machine.Refines spec guard Rel) {state : State}
    (reached : machine.Reach guard state) : ∃ state', spec.Reach anyStep state' ∧ Rel state state' := by
  induction reached with
  | initial valid =>
    obtain ⟨state', valid', related⟩ := refines.start _ valid
    exact ⟨state', .initial valid', related⟩
  | step prior allowed transition ih =>
    obtain ⟨state', reached', related⟩ := ih
    obtain ⟨actions, next', ran, related'⟩ :=
      refines.step _ _ _ _ prior reached' related allowed transition
    exact ⟨next', reached'.run ran, related'⟩

/-- What every step of the other machine keeps holds of what a reached state represents. -/
theorem Refines.transfer (refines : machine.Refines spec guard Rel) (Inv : State' → Prop)
    (initially : ∀ state', spec.Initial state' → Inv state')
    (preserved : ∀ state' action' next', spec.Reach anyStep state' → Inv state' →
      spec.step state' action' = some next' → Inv next')
    {state : State} (reached : machine.Reach guard state) : ∃ state', Inv state' ∧ Rel state state' := by
  obtain ⟨state', reached', related⟩ := refines.represented reached
  refine ⟨state', ?_, related⟩
  exact reached'.invariant Inv initially fun state' action' next' prior holds _ =>
    preserved state' action' next' prior holds

variable (spec Rel) in
/-- The other machine, on the actions that the steps of a run translate to. -/
theorem Reach.followed (translate : State → Action → Action') {first' : State'}
    (start : ∀ state, machine.Initial state → Rel state first')
    (step : ∀ state action next state', machine.Reach guard state → Rel state state' →
      guard state action → machine.step state action = some next →
        ∃ next', spec.step state' (translate state action) = some next' ∧ Rel next next')
    {state : State × List (State × Action)}
    (reached : machine.tracing.Reach (fun state => guard state.1) state) :
    ∃ state', spec.run first' (state.2.map fun made => translate made.1 made.2) = some state' ∧
      Rel state.1 state' := by
  induction reached with
  | @initial state valid =>
    rw [valid.2]
    exact ⟨first', rfl, start _ valid.1⟩
  | @step before action next prior allowed transition ih =>
    obtain ⟨state', ran, related⟩ := ih
    obtain ⟨stepped, grown⟩ := recording_step transition
    obtain ⟨next', stepped', related'⟩ := step _ _ _ _ prior.forget related allowed stepped
    refine ⟨next', ?_, related'⟩
    rw [grown, List.map_append, run_append, ran, List.map_singleton]
    simpa using stepped'

end NTUSP.Library.Machine
