import Mathlib.Tactic.Common

/-!
# Ordered forests

A forest is empty, or a first tree, given by its label and the forest of its children,
followed by its siblings. A `Place` addresses a tree of a forest, so that what happens at
one tree is a structural recursion. No program is named here.
-/

namespace NTUSP.Library

universe u v

inductive Forest (α : Type u) where
  | nil
  | node (label : α) (children siblings : Forest α)
  deriving DecidableEq

/-- Where a tree is: the first of the forest, or among its children or its siblings. -/
inductive Place where
  | here
  | child (place : Place)
  | next (place : Place)
  deriving DecidableEq

namespace Forest

variable {α : Type u} {β : Type v}

def map (f : α → β) : Forest α → Forest β
  | nil => nil
  | node a children siblings => node (f a) (children.map f) (siblings.map f)

/-- The number of trees. -/
def length : Forest α → Nat
  | nil => 0
  | node _ _ siblings => siblings.length + 1

/-- The labels, each before those below it. -/
def labels : Forest α → List α
  | nil => []
  | node a children siblings => a :: (children.labels ++ siblings.labels)

instance [DecidableEq α] (a : α) (forest : Forest α) : Decidable (a ∈ forest.labels) :=
  inferInstanceAs (Decidable (a ∈ (forest.labels : List α)))

/-- The labels of the trees themselves. -/
def roots : Forest α → List α
  | nil => []
  | node a _ siblings => a :: siblings.roots

/-- `P` holds of every tree, of whatever depth, as a label and the forest below it. -/
def All (P : α → Forest α → Prop) : Forest α → Prop
  | nil => True
  | node a children siblings => P a children ∧ children.All P ∧ siblings.All P

/-- The forest behind the first `k` trees. -/
def drop : Nat → Forest α → Forest α
  | 0, forest => forest
  | _ + 1, nil => nil
  | k + 1, node _ _ siblings => siblings.drop k

/-- The label of tree `k`. -/
def root? : Forest α → Nat → Option α
  | nil, _ => none
  | node a _ _, 0 => some a
  | node _ _ siblings, k + 1 => siblings.root? k

/-- Change the label of tree `k`. -/
def modify (f : α → α) : Forest α → Nat → Forest α
  | nil, _ => nil
  | node a children siblings, 0 => node (f a) children siblings
  | node a children siblings, k + 1 => node a children (siblings.modify f k)

/-- A leaf behind the last tree. -/
def snoc (c : α) : Forest α → Forest α
  | nil => node c nil nil
  | node a children siblings => node a children (siblings.snoc c)

/-- Two forests of one shape with related labels. -/
inductive Rel (R : α → β → Prop) : Forest α → Forest β → Prop where
  | nil : Rel R nil nil
  | node {a b children children' siblings siblings'} (label : R a b)
      (below : Rel R children children') (beside : Rel R siblings siblings') :
      Rel R (node a children siblings) (node b children' siblings')

/-- The length of the path along first children. -/
def spine : Forest α → Nat
  | nil => 0
  | node _ children _ => children.spine + 1

/-- A new leaf is one more label. -/
theorem snoc_perm (c : α) (forest : Forest α) :
    (forest.snoc c).labels.Perm (c :: forest.labels) := by
  induction forest with
  | nil => exact .refl _
  | node a children siblings _ ih =>
    have inner : (children.labels ++ (siblings.snoc c).labels).Perm
        (c :: (children.labels ++ siblings.labels)) :=
      (ih.append_left _).trans List.perm_middle
    exact (inner.cons a).trans (List.Perm.swap c a _)

theorem mem_snoc {forest : Forest α} {x c : α} :
    x ∈ (forest.snoc c).labels ↔ x ∈ forest.labels ∨ x = c := by
  rw [(snoc_perm c forest).mem_iff, List.mem_cons, or_comm]

section Graft

variable [DecidableEq α]

/-- Add `c` as the last child of the tree labelled `p`, the first in the order of `labels`
when there are several. -/
def graft (p c : α) : Forest α → Forest α
  | nil => nil
  | node a children siblings =>
      if a = p then node a (children.snoc c) siblings
      else if p ∈ children.labels then node a (children.graft p c) siblings
      else node a children (siblings.graft p c)

variable {p c x : α}

theorem graft_of_notMem {forest : Forest α} (absent : p ∉ forest.labels) :
    forest.graft p c = forest := by
  induction forest with
  | nil => rfl
  | node a children siblings _ ih =>
    simp only [labels, List.mem_cons, List.mem_append, not_or] at absent
    obtain ⟨other, below, beside⟩ := absent
    rw [graft, if_neg (Ne.symm other), if_neg below, ih beside]

/-- Where there is a tree to add to, there is one more label. -/
theorem graft_perm {forest : Forest α} (known : p ∈ forest.labels) :
    (forest.graft p c).labels.Perm (c :: forest.labels) := by
  induction forest with
  | nil => cases known
  | node a children siblings below beside =>
    have first {under : List α} (grown : under.Perm (c :: children.labels)) :
        (a :: (under ++ siblings.labels)).Perm (c :: a :: (children.labels ++ siblings.labels)) :=
      ((grown.append_right _).cons a).trans (List.Perm.swap c a _)
    unfold graft
    split
    · exact first (snoc_perm c children)
    split
    · rename_i inside
      exact first (below inside)
    · rename_i other outside
      have behind : p ∈ siblings.labels := by
        simpa [labels, Ne.symm other, outside] using known
      have inner : (children.labels ++ (siblings.graft p c).labels).Perm
          (c :: (children.labels ++ siblings.labels)) :=
        ((beside behind).append_left _).trans List.perm_middle
      exact (inner.cons a).trans (List.Perm.swap c a _)

/-- The label is new in the forest exactly if there is a tree to add it to. -/
theorem mem_graft {forest : Forest α} :
    x ∈ (forest.graft p c).labels ↔ x ∈ forest.labels ∨ (x = c ∧ p ∈ forest.labels) := by
  by_cases known : p ∈ forest.labels
  · rw [(graft_perm known).mem_iff, List.mem_cons]
    simp only [known, and_true, or_comm]
  · simp [graft_of_notMem known, known]

end Graft

theorem drop_eq_nil_iff {forest : Forest α} {k : Nat} : forest.drop k = nil ↔ forest.length ≤ k := by
  induction k generalizing forest with
  | zero => cases forest <;> simp [drop, length]
  | succ k ih => cases forest <;> simp [drop, length, ih]

/-- The forest behind one more tree. -/
theorem drop_succ {forest children siblings : Forest α} {a : α} {k : Nat}
    (next : forest.drop k = node a children siblings) : forest.drop (k + 1) = siblings := by
  induction k generalizing forest with
  | zero =>
    cases forest with
    | nil => cases next
    | node b _ rest =>
      cases next
      rfl
  | succ k ih =>
    cases forest with
    | nil => cases next
    | node b _ rest => exact ih next

/-- What is behind the first trees is in the forest. -/
theorem mem_of_drop {forest : Forest α} {k : Nat} {x : α} (member : x ∈ (forest.drop k).labels) :
    x ∈ forest.labels := by
  induction k generalizing forest with
  | zero => exact member
  | succ k ih =>
    cases forest with
    | nil => cases member
    | node a children siblings =>
      simp only [labels, List.mem_cons, List.mem_append]
      exact .inr (.inr (ih member))

/-- Changing the leaf behind the last tree. -/
theorem modify_snoc (f : α → α) (c : α) (forest : Forest α) :
    (forest.snoc c).modify f forest.length = forest.snoc (f c) := by
  induction forest with
  | nil => rfl
  | node a children siblings _ ih => simp [snoc, length, modify, ih]

/-- Only the label that is changed matters. -/
theorem modify_congr {f g : α → α} {forest : Forest α} {k : Nat} {a : α}
    (here : forest.root? k = some a) (same : f a = g a) : forest.modify f k = forest.modify g k := by
  induction forest generalizing k with
  | nil => rfl
  | node b children siblings _ ih =>
    cases k with
    | zero =>
      cases here
      simp only [modify, same]
    | succ k => exact congrArg (node b children) (ih here)

theorem length_roots (forest : Forest α) : forest.roots.length = forest.length := by
  induction forest with
  | nil => rfl
  | node a children siblings _ ih => simp [roots, length, ih]

theorem roots_snoc (c : α) (forest : Forest α) : (forest.snoc c).roots = forest.roots ++ [c] := by
  induction forest with
  | nil => rfl
  | node a children siblings _ ih => simp [snoc, roots, ih]

/-- What a change keeps of the labels, it keeps of the roots. -/
theorem map_roots_modify {f : α → α} {g : α → β} (keeps : ∀ a, g (f a) = g a) (forest : Forest α)
    (k : Nat) : (forest.modify f k).roots.map g = forest.roots.map g := by
  induction forest generalizing k with
  | nil => rfl
  | node a children siblings _ ih =>
    cases k with
    | zero => simp [modify, roots, keeps]
    | succ k => simp [modify, roots, ih]

theorem length_modify (f : α → α) (forest : Forest α) (k : Nat) :
    (forest.modify f k).length = forest.length := by
  induction forest generalizing k with
  | nil => rfl
  | node b children siblings _ ih =>
    cases k with
    | zero => rfl
    | succ k => exact congrArg (· + 1) (ih k)

theorem root?_modify {f : α → α} {forest : Forest α} {k : Nat} {a : α}
    (here : forest.root? k = some a) : (forest.modify f k).root? k = some (f a) := by
  induction forest generalizing k with
  | nil => cases here
  | node b children siblings _ ih =>
    cases k with
    | zero =>
      cases here
      rfl
    | succ k => exact ih here

theorem exists_root {forest : Forest α} {k : Nat} (inside : k < forest.length) :
    ∃ a, forest.root? k = some a := by
  induction forest generalizing k with
  | nil => exact absurd inside (Nat.not_lt_zero k)
  | node b children siblings _ ih =>
    cases k with
    | zero => exact ⟨b, rfl⟩
    | succ k => exact ih (Nat.lt_of_succ_lt_succ inside)

theorem root?_eq (forest : Forest α) (k : Nat) : forest.root? k = forest.roots[k]? := by
  induction forest generalizing k with
  | nil => rfl
  | node b children siblings _ ih =>
    cases k with
    | zero => rfl
    | succ k => exact ih k

theorem mem_roots {forest : Forest α} {k : Nat} {a : α} (here : forest.root? k = some a) :
    a ∈ forest.roots := by
  rw [root?_eq] at here
  exact List.mem_of_getElem? here

/-- What a change keeps of every root. -/
theorem forall_roots_modify {P : α → Prop} {f : α → α} (keeps : ∀ a, P a → P (f a))
    {forest : Forest α} (k : Nat) (all : ∀ a ∈ forest.roots, P a) :
    ∀ a ∈ (forest.modify f k).roots, P a := by
  induction forest generalizing k with
  | nil => exact all
  | node b children siblings _ ih =>
    obtain ⟨first, others⟩ := List.forall_mem_cons.mp all
    cases k with
    | zero => exact List.forall_mem_cons.mpr ⟨keeps b first, others⟩
    | succ k => exact List.forall_mem_cons.mpr ⟨first, ih k others⟩

/-- Changing the last tree. -/
theorem roots_modify_last {f : α → α} {forest : Forest α} {before : List α} {a : α}
    (last : forest.roots = before ++ [a]) :
    (forest.modify f (forest.length - 1)).roots = before ++ [f a] := by
  induction forest generalizing before with
  | nil => simp [roots] at last
  | node b children siblings _ ih =>
    cases siblings with
    | nil =>
      cases before with
      | nil =>
        cases last
        rfl
      | cons c before => simp [roots] at last
    | node c under rest =>
      cases before with
      | nil => simp [roots] at last
      | cons d before =>
        obtain ⟨same, behind⟩ := List.cons.inj last
        subst same
        exact congrArg (b :: ·) (ih behind)

namespace All

variable {P : α → Forest α → Prop} {forest : Forest α}

theorem of_mem {a : α} (all : forest.All P) (member : a ∈ forest.roots) : ∃ below, P a below := by
  induction forest with
  | nil => cases member
  | node b children siblings _ ih =>
    obtain ⟨first, _, others⟩ := all
    rcases List.mem_cons.mp member with rfl | behind
    · exact ⟨children, first⟩
    · exact ih others behind

theorem modify {f : α → α} (keeps : ∀ a below, P a below → P (f a) below) (k : Nat)
    (all : forest.All P) : (forest.modify f k).All P := by
  induction forest generalizing k with
  | nil => exact all
  | node b children siblings _ ih =>
    obtain ⟨first, below, others⟩ := all
    cases k with
    | zero => exact ⟨keeps b children first, below, others⟩
    | succ k => exact ⟨first, below, ih k others⟩

theorem snoc {c : α} (leaf : P c nil) (all : forest.All P) : (forest.snoc c).All P := by
  induction forest with
  | nil => exact ⟨leaf, trivial, trivial⟩
  | node b children siblings _ ih =>
    obtain ⟨first, below, others⟩ := all
    exact ⟨first, below, ih others⟩

end All

theorem length_snoc (c : α) (forest : Forest α) : (forest.snoc c).length = forest.length + 1 := by
  induction forest with
  | nil => rfl
  | node a children siblings _ ih => simp [snoc, length, ih]

namespace Rel

variable {R : α → β → Prop} {forest : Forest α} {forest' : Forest β}

theorem length_eq (rel : Rel R forest forest') : forest'.length = forest.length := by
  induction rel with
  | nil => rfl
  | node _ _ _ _ ih => simp [Forest.length, ih]

theorem snoc (rel : Rel R forest forest') {c : α} {c' : β} (label : R c c') :
    Rel R (forest.snoc c) (forest'.snoc c') := by
  induction rel with
  | nil => exact .node label .nil .nil
  | node first below _ _ ih => exact .node first below ih

/-- A related forest has the labels a function reads off it. -/
theorem map_eq (rel : Rel R forest forest') {f : β → α} (reads : ∀ a b, R a b → f b = a) :
    forest'.map f = forest := by
  induction rel with
  | nil => rfl
  | node label _ _ below beside => simp [map, below, beside, reads _ _ label]

/-- Every label is related to one. -/
theorem exists_of_mem (rel : Rel R forest forest') {b : β} (member : b ∈ forest'.labels) :
    ∃ a ∈ forest.labels, R a b := by
  induction rel with
  | nil => cases member
  | node label _ _ below beside =>
    simp only [labels, List.mem_cons, List.mem_append] at member ⊢
    rcases member with rfl | inside | outside
    · exact ⟨_, .inl rfl, label⟩
    · obtain ⟨a, found, related⟩ := below inside
      exact ⟨a, .inr (.inl found), related⟩
    · obtain ⟨a, found, related⟩ := beside outside
      exact ⟨a, .inr (.inr found), related⟩

end Rel

end Forest
end NTUSP.Library
