import NTUSP.Library.Machine

/-!
# Monitors of a history

A history of moments, each an event with the state behind it, is read by a monitor whose phase
depends on the events alone. What a phase says of the states is proved once for the moments of
a step and holds of every moment of every run. No program is named here.
-/

namespace NTUSP.Library

universe u v w x

/-- How a phase moves on with an event. -/
structure Monitor (Phase : Type u) (Event : Type v) where
  next : Phase → Event → Phase

namespace Monitor

variable {Phase : Type u} {Event : Type v} {State : Type w} (monitor : Monitor Phase Event)
  {phase : Phase} {before after moments : List (Event × State)} {moment : Event × State}

/-- The phase behind a history. -/
def run (phase : Phase) (moments : List (Event × State)) : Phase :=
  moments.foldl (fun phase moment => monitor.next phase moment.1) phase

@[simp] theorem run_nil : monitor.run phase ([] : List (Event × State)) = phase := rfl

@[simp] theorem run_cons :
    monitor.run phase (moment :: after) = monitor.run (monitor.next phase moment.1) after := rfl

@[simp] theorem run_append :
    monitor.run phase (before ++ after) = monitor.run (monitor.run phase before) after :=
  List.foldl_append

/-- Every moment meets what is asked of it in the phase before it. -/
def Follows (Meets : Phase → Event → State → Prop) : Phase → List (Event × State) → Prop
  | _, [] => True
  | phase, moment :: rest =>
      Meets phase moment.1 moment.2 ∧ Follows Meets (monitor.next phase moment.1) rest

variable {monitor} {Meets : Phase → Event → State → Prop}

@[simp] theorem follows_nil : monitor.Follows Meets phase [] := trivial

@[simp] theorem follows_cons : monitor.Follows Meets phase (moment :: after) ↔
    Meets phase moment.1 moment.2 ∧
      monitor.Follows Meets (monitor.next phase moment.1) after := .rfl

theorem follows_append : monitor.Follows Meets phase (before ++ after) ↔
    monitor.Follows Meets phase before ∧
      monitor.Follows Meets (monitor.run phase before) after := by
  induction before generalizing phase with
  | nil => simp
  | cons moment before ih => rw [List.cons_append, run_cons, follows_cons, follows_cons, ih, and_assoc]

/-- A history split at a moment. -/
theorem Follows.split (follows : monitor.Follows Meets phase (before ++ moment :: after)) :
    monitor.Follows Meets phase before ∧
      Meets (monitor.run phase before) moment.1 moment.2 ∧
      monitor.Follows Meets (monitor.run phase (before ++ [moment])) after := by
  obtain ⟨earlier, here, later⟩ := follows_append.mp follows
  rw [run_append]
  exact ⟨earlier, here, later⟩

/-- Run rule: if the moments of every step follow the monitor from the phase the state before
it is in, and lead to the phase of the next state, so does the history of every run. -/
theorem Follows.of_reach {Action : Type x} {machine : Machine State Action}
    {moments : State → Action → List (Event × State)} {guard : State → Action → Prop}
    (Inv : Phase → State → Prop) (initially : ∀ state, machine.Initial state → Inv phase state)
    (preserved : ∀ phase state action next, machine.Reach guard state → Inv phase state →
      machine.step state action = some next →
      monitor.Follows Meets phase (moments state action) ∧
        Inv (monitor.run phase (moments state action)) next)
    {run : State × List (Event × State)}
    (reached : (machine.recording moments).Reach (fun state => guard state.1) run) :
    monitor.Follows Meets phase run.2 ∧ Inv (monitor.run phase run.2) run.1 := by
  induction reached with
  | initial valid =>
    rw [valid.2]
    exact ⟨trivial, initially _ valid.1⟩
  | step prior _ transition ih =>
    obtain ⟨stepped, grown⟩ := Machine.recording_step transition
    obtain ⟨follows, inv⟩ := ih
    obtain ⟨now, next⟩ := preserved _ _ _ _ prior.forget inv stepped
    rw [grown, run_append]
    exact ⟨follows_append.mpr ⟨follows, now⟩, next⟩

end Monitor
end NTUSP.Library
