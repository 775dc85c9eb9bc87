import Mathlib.Data.List.Nodup
import Mathlib.Tactic.Common

/-!
# First in, first out

A dispatcher keeps the members that are ready in a list and gives the turn to its head. The
member whose turn ends goes behind the others, or is gone. So the turns follow the order of
the list, and between two turns of one member everybody else in the list has one. No program
is named here.
-/

namespace NTUSP.Library

universe u

/-- How a turn ends. -/
inductive TurnEnd where
  | preempted
  | exited
  deriving DecidableEq

/-- Who has the turn, and who is ready behind. -/
structure Fifo (α : Type u) where
  running : Option α
  queue : List α

namespace Fifo

variable {α : Type u} {queue : List α} {f g : Fifo α} {p : α}

/-- The head of the list gets the turn. -/
def take (queue : List α) : Fifo α where
  running := queue.head?
  queue := queue.tail

/-- Who is ready when a turn has ended. -/
def ready (f : Fifo α) : TurnEnd → List α
  | .preempted => f.queue ++ f.running.toList
  | .exited => f.queue

/-- The turn ends, and the next one is given. -/
def next (f : Fifo α) (turn : TurnEnd) : Fifo α := take (f.ready turn)

/-- What follows when turns end one after the other. -/
def states (f : Fifo α) : List TurnEnd → List (Fifo α)
  | [] => []
  | turn :: rest => f.next turn :: (f.next turn).states rest

/-- One more turn follows the last state. -/
theorem states_concat {turns : List TurnEnd} (last : (f :: f.states turns).getLast? = some g)
    (turn : TurnEnd) : f.states (turns ++ [turn]) = f.states turns ++ [g.next turn] := by
  induction turns generalizing f with
  | nil =>
    obtain rfl : f = g := by simpa [states] using last
    rfl
  | cons first rest ih =>
    have later : ((f.next first) :: (f.next first).states rest).getLast? = some g := by
      simpa [states, List.getLast?_cons_cons] using last
    simp [states, ih later]

/-- What follows a state of a sequence follows from it. -/
theorem states_of_split {turns : List TurnEnd} {before after : List (Fifo α)}
    (split : f :: f.states turns = before ++ g :: after) :
    ∃ rest, after = g.states rest := by
  induction before generalizing f turns with
  | nil =>
    obtain ⟨rfl, rfl⟩ := List.cons.inj split
    exact ⟨turns, rfl⟩
  | cons first before ih =>
    obtain ⟨_, split⟩ := List.cons.inj split
    cases turns with
    | nil => simp [states] at split
    | cons turn rest => exact ih split

/-- Who is in the list gets the turn in the order of the list. -/
theorem running_of_queue {turns : List TurnEnd} {k : Nat} (inside : k < queue.length)
    {state : Fifo α} (found : (take queue :: (take queue).states turns)[k]? = some state) :
    state.running = queue[k]? := by
  induction k generalizing queue turns with
  | zero =>
    obtain rfl : take queue = state := by simpa using found
    cases queue <;> rfl
  | succ k ih =>
    obtain ⟨first, rest, rfl⟩ := List.exists_cons_of_length_pos (l := queue) (by omega)
    cases turns with
    | nil => simp [states] at found
    | cons turn turns =>
      rw [List.length_cons] at inside
      have kept : ∃ behind, (take (first :: rest)).ready turn = rest ++ behind := by
        cases turn with
        | preempted => exact ⟨[first], rfl⟩
        | exited => exact ⟨[], (List.append_nil rest).symm⟩
      obtain ⟨behind, kept⟩ := kept
      have later : state.running = (rest ++ behind)[k]? :=
        ih (by rw [List.length_append]; omega) (by rw [← kept]; exact found)
      rw [later, List.getElem?_append_left (by omega), List.getElem?_cons_succ]

/-- Who is not ready never gets the turn again. -/
theorem running_ne_of_notMem {turns : List TurnEnd} (absent : p ∉ queue) :
    ∀ state ∈ take queue :: (take queue).states turns, state.running ≠ some p := by
  induction turns generalizing queue with
  | nil =>
    intro state member again
    obtain rfl := List.mem_singleton.mp member
    exact absent (List.mem_of_mem_head? again)
  | cons turn turns ih =>
    intro state member again
    rcases List.mem_cons.mp member with rfl | later
    · exact absent (List.mem_of_mem_head? again)
    · have still : p ∉ (take queue).ready turn := by
        intro ready
        apply absent
        cases turn with
        | preempted =>
          rcases List.mem_append.mp ready with behind | ended
          · exact List.mem_of_mem_tail behind
          · exact List.mem_of_mem_head? (Option.mem_toList.mp ended)
        | exited => exact List.mem_of_mem_tail ready
      exact ih still state later again

/-- Between two turns of a member that is not in the list, everybody in the list has a turn, in
the order of the list, and nobody else has one. -/
theorem running_between {turns : List TurnEnd} {mid after : List (Fifo α)}
    (mine : f.running = some p) (absent : p ∉ f.queue)
    (follows : f.states turns = mid ++ g :: after) (again : g.running = some p)
    (first : ∀ state ∈ mid, state.running ≠ some p) :
    mid.map running = f.queue.map some := by
  cases turns with
  | nil => simp [states] at follows
  | cons turn turns =>
    have there : g ∈ f.states (turn :: turns) := by simp [follows]
    cases turn with
    | exited => exact absurd again (running_ne_of_notMem absent g there)
    | preempted =>
      have ready : f.ready .preempted = f.queue ++ [p] := by simp [Fifo.ready, mine]
      have order : ∀ k state, k < f.queue.length + 1 → (mid ++ g :: after)[k]? = some state →
          state.running = (f.queue ++ [p])[k]? := by
        intro k state inside found
        rw [← follows, states, next, ready] at found
        exact running_of_queue (by simpa using inside) found
      -- The list and `mid` have one length: `p` is the entry behind each of them.
      have long : f.queue.length ≤ mid.length := by
        by_contra short
        have here := order mid.length g (by omega) (by simp)
        rw [again, List.getElem?_append_left (by omega)] at here
        exact absent (List.mem_of_getElem? here.symm)
      have short : mid.length ≤ f.queue.length := by
        by_contra long
        obtain ⟨state, found⟩ : ∃ state, mid[f.queue.length]? = some state :=
          ⟨_, List.getElem?_eq_getElem (by omega)⟩
        have here := order f.queue.length state (by omega)
          (by rw [List.getElem?_append_left (by omega)]; exact found)
        rw [List.getElem?_append_right (Nat.le_refl _)] at here
        exact first state (List.mem_of_getElem? found) (by simpa using here)
      have same : mid.length = f.queue.length := Nat.le_antisymm short long
      apply List.ext_getElem (by simpa using same)
      intro k left right
      rw [List.length_map] at left right
      have here := order k mid[k] (by omega)
        (by rw [List.getElem?_append_left left, List.getElem?_eq_getElem left])
      rw [List.getElem_map, List.getElem_map, here, List.getElem?_append_left right,
        List.getElem?_eq_getElem right]

end Fifo
end NTUSP.Library
