import Mathlib.Algebra.GroupWithZero.Nat
import Mathlib.Data.List.Perm.Subperm
import Mathlib.Tactic.Common

/-!
# Counting entries of a changing list

A thread table or a slot array changes one entry at a time. These lemmas say
what such a change does to the number of entries with a property, without
subtraction, so that an invariant on counts is a linear equation.
-/

namespace NTUSP.Library.Counting

variable {α : Type}

/-- Replacing one entry moves the count by the difference of the two entries. -/
theorem countP_set_add {entries : List α} {index : Nat} {old : α} (property : α → Bool)
    (found : entries[index]? = some old) (new : α) :
    (entries.set index new).countP property + (property old).toNat =
      entries.countP property + (property new).toNat := by
  induction entries generalizing index with
  | nil => simp at found
  | cons head rest ih =>
    cases index with
    | zero =>
      have same : head = old := by simpa using found
      subst same
      cases hp : property head <;> cases hq : property new <;>
        simp [List.set_cons_zero, hp, hq]
    | succ index =>
      have tail : (rest.set index new).countP property + (property old).toNat =
          rest.countP property + (property new).toNat := ih (by simpa using found)
      cases hp : property head <;>
        simp only [List.set_cons_succ, List.countP_cons, hp] <;> simp <;> omega

/-- Replacing one entry moves the sum of the weights by the difference of the two entries. -/
theorem sum_map_set_add {entries : List α} {index : Nat} {old : α} (weight : α → Nat)
    (found : entries[index]? = some old) (new : α) :
    ((entries.set index new).map weight).sum + weight old =
      (entries.map weight).sum + weight new := by
  induction entries generalizing index with
  | nil => simp at found
  | cons head rest ih =>
    cases index with
    | zero =>
      have same : head = old := by simpa using found
      subst same
      simp only [List.set_cons_zero, List.map_cons, List.sum_cons]
      omega
    | succ index =>
      have tail : ((rest.set index new).map weight).sum + weight old =
          (rest.map weight).sum + weight new := ih (by simpa using found)
      simp only [List.set_cons_succ, List.map_cons, List.sum_cons]
      omega

/-- Replacing an entry by one that counts the same leaves the count alone. -/
theorem countP_set_same {entries : List α} {index : Nat} {old new : α} (property : α → Bool)
    (found : entries[index]? = some old) (same : property new = property old) :
    (entries.set index new).countP property = entries.countP property := by
  have moved := countP_set_add property found new
  rw [same] at moved
  omega

/-- A counted entry makes the count positive. -/
theorem countP_pos_of_get {entries : List α} {index : Nat} {entry : α} (property : α → Bool)
    (found : entries[index]? = some entry) (holds : property entry = true) :
    0 < entries.countP property := by
  rw [List.countP_pos_iff]
  exact ⟨entry, List.mem_of_getElem? found, holds⟩

/-- The entry read back after a change: the new one at its index, the old ones elsewhere. -/
theorem getElem?_set_of_get {entries : List α} {index : Nat} {old : α}
    (found : entries[index]? = some old) (new : α) (other : Nat) :
    (entries.set index new)[other]? = if index = other then some new else entries[other]? := by
  have inside : index < entries.length := by
    rcases Nat.lt_or_ge index entries.length with inside | outside
    · exact inside
    · rw [List.getElem?_eq_none outside] at found
      cases found
  rw [List.getElem?_set]
  split
  · simp
  · rfl

/-- Two properties that differ at one entry only have counts that differ by that entry. -/
theorem countP_change {entries : List α} (entry : α) {before after : α → Bool}
    (distinct : entries.Nodup) (member : entry ∈ entries)
    (same : ∀ other ∈ entries, other ≠ entry → after other = before other) :
    entries.countP after + (before entry).toNat = entries.countP before + (after entry).toNat := by
  induction entries with
  | nil => simp at member
  | cons head rest ih =>
    obtain ⟨fresh, distinct⟩ := List.nodup_cons.mp distinct
    rw [List.countP_cons, List.countP_cons]
    rcases List.mem_cons.mp member with rfl | member
    · have equal : rest.countP after = rest.countP before := by
        refine List.countP_congr fun other inside => ?_
        have differs : other ≠ entry := by
          rintro rfl
          exact fresh inside
        rw [same other (List.mem_cons_of_mem _ inside) differs]
      cases hb : before entry <;> cases ha : after entry <;> simp [equal]
    · have moved := ih distinct member fun other inside =>
        same other (List.mem_cons_of_mem _ inside)
      have differs : head ≠ entry := by
        rintro rfl
        exact fresh member
      rw [same head List.mem_cons_self differs]
      omega

/-- A count of one names one entry. -/
theorem eq_of_countP_eq_one {entries : List α} {property : α → Bool} {first second : α}
    (one : entries.countP property = 1) (firstIn : first ∈ entries) (secondIn : second ∈ entries)
    (firstHolds : property first = true) (secondHolds : property second = true) :
    first = second := by
  rw [List.countP_eq_length_filter] at one
  obtain ⟨only, same⟩ := List.length_eq_one_iff.mp one
  have firstOnly : first ∈ entries.filter property := List.mem_filter.mpr ⟨firstIn, firstHolds⟩
  have secondOnly : second ∈ entries.filter property := List.mem_filter.mpr ⟨secondIn, secondHolds⟩
  rw [same, List.mem_singleton] at firstOnly secondOnly
  rw [firstOnly, secondOnly]

/-- There are at most `n` distinct numbers between 1 and `n`. -/
theorem length_le_of_nodup {queued : List Nat} {n : Nat} (distinct : queued.Nodup)
    (inside : ∀ entry ∈ queued, 1 ≤ entry ∧ entry ≤ n) : queued.length ≤ n := by
  have sub : queued ⊆ List.range' 1 n := by
    intro entry member
    have range := inside entry member
    rw [List.mem_range'_1]
    omega
  have shorter := (distinct.subperm sub).length_le
  rwa [List.length_range'] at shorter

/-- Distinct numbers between 1 and `n` leave room for a further one only below `n`. -/
theorem length_lt_of_fresh {queued : List Nat} {fresh n : Nat} (distinct : queued.Nodup)
    (inside : ∀ entry ∈ queued, 1 ≤ entry ∧ entry ≤ n) (bounds : 1 ≤ fresh ∧ fresh ≤ n)
    (absent : fresh ∉ queued) : queued.length < n :=
  length_le_of_nodup (List.nodup_cons.mpr ⟨absent, distinct⟩)
    (List.forall_mem_cons.mpr ⟨bounds, inside⟩)

/-- Dropping as many entries as have a property leaves the entries without it exactly if the
entries with it come first. -/
theorem drop_countP_eq_filter_iff {entries : List α} {property : α → Bool} :
    entries.drop (entries.countP property) = entries.filter (fun entry => !property entry) ↔
      entries.Pairwise fun first second => property second = true → property first = true := by
  constructor
  · intro dropped
    have without : ∀ entry ∈ entries.drop (entries.countP property), property entry = false := by
      intro entry member
      rw [dropped, List.mem_filter] at member
      simpa using member.2
    have length : (entries.take (entries.countP property)).length = entries.countP property :=
      List.length_take_of_le List.countP_le_length
    have rest : (entries.drop (entries.countP property)).countP property = 0 :=
      List.countP_eq_zero.mpr fun entry member => by simp [without entry member]
    have counted : (entries.take (entries.countP property)).countP property =
        (entries.take (entries.countP property)).length := by
      have split : (entries.take (entries.countP property) ++
          entries.drop (entries.countP property)).countP property =
          (entries.take (entries.countP property)).countP property +
            (entries.drop (entries.countP property)).countP property := List.countP_append
      rw [List.take_append_drop] at split
      omega
    have all := List.countP_eq_length.mp counted
    rw [← List.take_append_drop (entries.countP property) entries, List.pairwise_append]
    refine ⟨?_, ?_, fun first member _ _ _ => all first member⟩
    · exact List.Pairwise.imp_of_mem (fun member _ _ _ => all _ member)
        (List.pairwise_of_forall (R := fun _ _ => True) fun _ _ => trivial)
    · exact List.Pairwise.imp_of_mem
        (fun _ member _ holds => by rw [without _ member] at holds; cases holds)
        (List.pairwise_of_forall (R := fun _ _ => True) fun _ _ => trivial)
  · intro sorted
    induction entries with
    | nil => rfl
    | cons entry rest ih =>
        obtain ⟨first, sorted⟩ := List.pairwise_cons.mp sorted
        by_cases holds : property entry = true
        · simp [holds, ih sorted]
        · have rejected : property entry = false := Bool.eq_false_iff.mpr holds
          have none_holds : ∀ other ∈ rest, property other = false := fun other member =>
            Bool.eq_false_iff.mpr fun also => holds (first other member also)
          have nothing : rest.countP property = 0 :=
            List.countP_eq_zero.mpr fun other member => by simp [none_holds other member]
          have everything : rest.filter (fun entry => !property entry) = rest :=
            List.filter_eq_self.mpr fun other member => by simp [none_holds other member]
          simp [rejected, nothing, everything]

end NTUSP.Library.Counting
