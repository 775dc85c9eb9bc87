import Mathlib.Logic.Function.Basic
import Mathlib.Tactic.Common

/-!
# Linked lists in memory

A heap of doubly linked nodes, with `none` for the null pointer. `Segment` says which nodes the
pointers `next` lead through, and `walk` follows them until a pointer it stops at. A walk along
a segment visits its nodes in order, and what comes behind depends on the end of the segment
alone. No program is named here.
-/

namespace NTUSP.Library

universe u v

structure Node (α : Type u) where
  data : α
  prev : Option Nat
  next : Option Nat

/-- The nodes that are allocated. -/
abbrev Heap (α : Type u) : Type u := Nat → Option (Node α)

namespace Heap

variable {α : Type u} {β : Type v}

def write (heap : Heap α) (address : Nat) (node : Node α) : Heap α :=
  Function.update heap address (some node)

@[simp] theorem write_self (heap : Heap α) (address : Nat) (node : Node α) :
    heap.write address node address = some node := by simp [write]

theorem write_other (heap : Heap α) {address other : Nat} (node : Node α)
    (different : other ≠ address) : heap.write address node other = heap other := by
  simp [write, different]

/-- From `p` on the pointers lead through `nodes`, and the last one is `q`. -/
inductive Segment (heap : Heap α) : Option Nat → List (Nat × α) → Option Nat → Prop where
  | nil {p : Option Nat} : Segment heap p [] p
  | cons {address : Nat} {node : Node α} {nodes : List (Nat × α)} {q : Option Nat}
      (allocated : heap address = some node) (rest : Segment heap node.next nodes q) :
      Segment heap (some address) ((address, node.data) :: nodes) q

variable {heap : Heap α} {p q : Option Nat} {address : Nat} {node : Node α} {data : α}
  {nodes : List (Nat × α)}

theorem Segment.of_nil (segment : heap.Segment p [] q) : p = q := by
  cases segment
  rfl

/-- The addresses of a segment are those of nodes. -/
theorem Segment.allocated (segment : heap.Segment p nodes q) (member : address ∈ nodes.map Prod.fst) :
    heap address ≠ none := by
  induction segment with
  | nil => simp at member
  | cons here _ ih =>
    rcases List.mem_cons.mp member with rfl | later
    · simp [here]
    · exact ih later

/-- A write elsewhere leaves the segment alone. -/
theorem Segment.frame (segment : heap.Segment p nodes q) (apart : address ∉ nodes.map Prod.fst) :
    (heap.write address node).Segment p nodes q := by
  induction segment with
  | nil => exact .nil
  | cons here _ ih =>
    rw [List.map_cons, List.mem_cons, not_or] at apart
    exact .cons ((heap.write_other node (Ne.symm apart.1)).trans here) (ih apart.2)

/-- One more node at the end. -/
theorem Segment.snoc (segment : heap.Segment p nodes (some address))
    (allocated : heap address = some node) :
    heap.Segment p (nodes ++ [(address, node.data)]) node.next := by
  generalize last : some address = q at segment
  induction segment with
  | nil =>
    subst last
    exact .cons allocated .nil
  | cons here _ ih => exact .cons here (ih last)

/-- The last node of a segment. -/
theorem Segment.last (segment : heap.Segment p (nodes ++ [(address, data)]) q) :
    heap.Segment p nodes (some address) ∧
      ∃ node, heap address = some node ∧ node.data = data ∧ node.next = q := by
  induction nodes generalizing p with
  | nil =>
    cases segment with
    | cons here rest => exact ⟨.nil, _, here, rfl, rest.of_nil⟩
  | cons first nodes ih =>
    cases segment with
    | cons here rest =>
      obtain ⟨before, last⟩ := ih rest
      exact ⟨.cons here before, last⟩

/-! ## Walks -/

/-- How a walk ends: at the pointer it stops at, at a pointer to no node, or not yet. -/
inductive Walk (β : Type v) where
  | returned (items : List β)
  | fault (items : List β) (p : Option Nat)
  | running (items : List β)
  deriving DecidableEq

/-- What is seen before a walk. -/
def Walk.after (items : List β) : Walk β → Walk β
  | .returned more => .returned (items ++ more)
  | .fault more p => .fault (items ++ more) p
  | .running more => .running (items ++ more)

/-- Follow `next` until `stop`, for at most `turns` turns. -/
def walk (heap : Heap α) (stop : Option Nat) (visit : Nat → α → List β) :
    Nat → Option Nat → Walk β
  | 0, _ => .running []
  | turns + 1, p =>
      if p = stop then .returned []
      else
        match p with
        | none => .fault [] none
        | some address =>
            match heap address with
            | none => .fault [] (some address)
            | some node => (walk heap stop visit turns node.next).after (visit address node.data)

variable {stop : Option Nat} {visit : Nat → α → List β}

@[simp] theorem Walk.after_nil (walk : Walk β) : walk.after [] = walk := by
  cases walk <;> rfl

theorem Walk.after_append (first second : List β) (walk : Walk β) :
    walk.after (first ++ second) = (walk.after second).after first := by
  cases walk <;> simp [Walk.after]

theorem walk_node (other : some address ≠ stop) (allocated : heap address = some node)
    (turns : Nat) :
    heap.walk stop visit (turns + 1) (some address) =
      (heap.walk stop visit turns node.next).after (visit address node.data) := by
  rw [walk, if_neg other]
  simp only [allocated]

theorem walk_stop (turns : Nat) : heap.walk stop visit (turns + 1) stop = .returned [] := by
  simp [walk]

theorem walk_null (other : stop ≠ none) (turns : Nat) :
    heap.walk stop visit (turns + 1) none = .fault [] none := by
  simp [walk, Ne.symm other]

/-- A walk goes along a segment that does not meet its stop. -/
theorem walk_segment (segment : heap.Segment p nodes q)
    (apart : ∀ address ∈ nodes.map Prod.fst, some address ≠ stop) (turns : Nat) :
    heap.walk stop visit (nodes.length + turns) p =
      (heap.walk stop visit turns q).after
        (nodes.flatMap fun (address, data) => visit address data) := by
  induction segment with
  | nil => simp
  | @cons address node nodes q allocated _ ih =>
    have other := apart address List.mem_cons_self
    have later := ih fun address member => apart address (List.mem_cons_of_mem _ member)
    rw [List.length_cons, Nat.add_right_comm, walk_node other allocated, later,
      List.flatMap_cons, Walk.after_append]

/-- More turns do not change a walk that has ended. -/
theorem walk_more {walk : Walk β} (ended : ∀ items, walk ≠ .running items) {turns : Nat}
    (ends : heap.walk stop visit turns p = walk) (more : Nat) :
    heap.walk stop visit (turns + more) p = walk := by
  induction turns generalizing p walk with
  | zero => exact absurd ends.symm (ended [])
  | succ turns ih =>
    rw [Nat.add_right_comm]
    unfold Heap.walk at ends ⊢
    by_cases there : p = stop
    · rwa [if_pos there] at ends ⊢
    rw [if_neg there] at ends ⊢
    cases p with
    | none => exact ends
    | some address =>
      dsimp only at ends ⊢
      cases here : heap address with
      | none => rwa [here] at ends
      | some node =>
        rw [here] at ends
        dsimp only at ends ⊢
        rw [ih (fun items running => ?_) rfl, ends]
        rw [running] at ends
        exact ended _ ends.symm

end Heap
end NTUSP.Library
