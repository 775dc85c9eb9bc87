import Mathlib.Tactic.Common

/-!
# Circular windows of an array

`window cells cap head count` lists the `count` cells that follow position
`head` around an array of `cap` cells. A producer writes behind the window and
a consumer takes its first cell; `window_push` and `window_pop` say what each
does to the listed contents, and `segment` is the window between two indices
that a program keeps instead of a count.
-/

namespace NTUSP.Library.Ring

variable {α : Type} [Inhabited α]

/-- The `count` cells from `head` on, going round after cell `cap - 1`. -/
def window (cells : List α) (cap head count : Nat) : List α :=
  (List.range count).map fun k => cells.getD ((head + k) % cap) default

@[simp] theorem window_length (cells : List α) (cap head count : Nat) :
    (window cells cap head count).length = count := by
  simp [window]

@[simp] theorem window_zero (cells : List α) (cap head : Nat) :
    window cells cap head 0 = [] := by
  simp [window]

/-- Two positions of one turn are different cells. -/
theorem add_mod_ne {cap head i j : Nat} (less : i < j) (turn : j < i + cap) :
    (head + i) % cap ≠ (head + j) % cap := by
  intro same
  have divides : cap ∣ (head + j) - (head + i) :=
    Nat.dvd_of_mod_eq_zero (Nat.sub_mod_eq_zero_of_mod_eq same.symm)
  have bound : (head + j) - (head + i) < cap := by omega
  have zero := Nat.eq_zero_of_dvd_of_lt divides bound
  omega

/-- Writing a cell outside the window leaves its contents alone. -/
theorem window_set {cells : List α} {cap head count slot : Nat} (value : α)
    (outside : ∀ k < count, (head + k) % cap ≠ slot) :
    window (cells.set slot value) cap head count = window cells cap head count := by
  unfold window
  apply List.map_congr_left
  intro k member
  have apart := outside k (List.mem_range.mp member)
  simp only [List.getD_eq_getElem?_getD, List.getElem?_set, if_neg (Ne.symm apart)]

/-- Writing the cell behind a window that is not full appends to its contents. -/
theorem window_push {cells : List α} {cap head count : Nat} (value : α)
    (size : cells.length = cap) (room : count < cap) :
    window (cells.set ((head + count) % cap) value) cap head (count + 1) =
      window cells cap head count ++ [value] := by
  have positive : 0 < cap := by omega
  have inside : (head + count) % cap < cells.length := by
    rw [size]
    exact Nat.mod_lt _ positive
  have earlier : window (cells.set ((head + count) % cap) value) cap head count =
      window cells cap head count := by
    apply window_set
    intro k less
    exact add_mod_ne less (by omega)
  have split : window (cells.set ((head + count) % cap) value) cap head (count + 1) =
      window (cells.set ((head + count) % cap) value) cap head count ++
        [(cells.set ((head + count) % cap) value).getD ((head + count) % cap) default] := by
    simp [window, List.range_succ]
  rw [split, earlier]
  simp [List.getD_eq_getElem?_getD, inside]

/-- A nonempty window starts with the cell at `head`. -/
theorem window_pop (cells : List α) (cap head count : Nat) :
    window cells cap head (count + 1) =
      cells.getD (head % cap) default :: window cells cap ((head + 1) % cap) count := by
  unfold window
  rw [List.range_succ_eq_map, List.map_cons, List.map_map, Nat.add_zero]
  congr 1
  apply List.map_congr_left
  intro k _
  simp only [Function.comp_apply, Nat.mod_add_mod]
  congr 2
  omega

/-- The number of cells from index `head` round to index `tail`. -/
def gap (cap head tail : Nat) : Nat := (tail + cap - head) % cap

/-- The window between two indices. Equal indices are the empty window. -/
def segment (cells : List α) (cap head tail : Nat) : List α :=
  window cells cap head (gap cap head tail)

theorem gap_of_le {cap head tail : Nat} (ordered : head ≤ tail) (inside : tail < cap) :
    gap cap head tail = tail - head := by
  unfold gap
  have shift : tail + cap - head = (tail - head) + cap := by omega
  rw [shift, Nat.add_mod_right, Nat.mod_eq_of_lt (by omega)]

theorem gap_of_gt {cap head tail : Nat} (wrapped : tail < head) (inside : head < cap) :
    gap cap head tail = tail + cap - head := by
  unfold gap
  exact Nat.mod_eq_of_lt (by omega)

theorem gap_eq_zero {cap head tail : Nat} (headIn : head < cap) (tailIn : tail < cap) :
    gap cap head tail = 0 ↔ head = tail := by
  rcases Nat.lt_or_ge tail head with wrapped | ordered
  · rw [gap_of_gt wrapped headIn]
    omega
  · rw [gap_of_le ordered tailIn]
    omega

/-- The tail index is where the next write behind the window goes. -/
theorem head_add_gap {cap head tail : Nat} (headIn : head < cap) (tailIn : tail < cap) :
    (head + gap cap head tail) % cap = tail := by
  rcases Nat.lt_or_ge tail head with wrapped | ordered
  · rw [gap_of_gt wrapped headIn]
    have shift : head + (tail + cap - head) = tail + cap := by omega
    rw [shift, Nat.add_mod_right, Nat.mod_eq_of_lt tailIn]
  · rw [gap_of_le ordered tailIn]
    have shift : head + (tail - head) = tail := by omega
    rw [shift, Nat.mod_eq_of_lt tailIn]

/-- Advancing the tail of a window with room lengthens it by one. -/
theorem gap_succ_tail {cap head tail : Nat} (headIn : head < cap) (tailIn : tail < cap)
    (room : gap cap head tail + 1 < cap) :
    gap cap head ((tail + 1) % cap) = gap cap head tail + 1 := by
  rcases Nat.lt_or_ge (tail + 1) cap with inside | last
  · rw [Nat.mod_eq_of_lt inside]
    rcases Nat.lt_or_ge tail head with wrapped | ordered
    · rw [gap_of_gt wrapped headIn] at room ⊢
      rw [gap_of_gt (by omega) headIn]
      omega
    · rw [gap_of_le ordered tailIn, gap_of_le (by omega) inside]
      omega
  · have full : tail + 1 = cap := by omega
    have ordered : head ≤ tail := by omega
    rw [gap_of_le ordered tailIn] at room ⊢
    rw [full, Nat.mod_self, gap_of_gt (by omega) headIn]
    omega

/-- Advancing the head of a nonempty window shortens it by one. -/
theorem gap_succ_head {cap head tail : Nat} (headIn : head < cap) (tailIn : tail < cap)
    (nonempty : head ≠ tail) :
    gap cap head tail = gap cap ((head + 1) % cap) tail + 1 := by
  rcases Nat.lt_or_ge (head + 1) cap with inside | last
  · rw [Nat.mod_eq_of_lt inside]
    rcases Nat.lt_or_ge tail head with wrapped | ordered
    · rw [gap_of_gt wrapped headIn, gap_of_gt (by omega) inside]
      omega
    · rw [gap_of_le ordered tailIn, gap_of_le (by omega) tailIn]
      omega
  · have full : head + 1 = cap := by omega
    rw [full, Nat.mod_self, gap_of_gt (by omega) headIn, gap_of_le (by omega) tailIn]
    omega

theorem segment_eq_nil {cells : List α} {cap head tail : Nat} (headIn : head < cap)
    (tailIn : tail < cap) : segment cells cap head tail = [] ↔ head = tail := by
  rw [← gap_eq_zero headIn tailIn, ← List.length_eq_zero_iff]
  simp [segment]

/-- Enqueue at the tail index: the contents grow by the written value. -/
theorem segment_push {cells : List α} {cap head tail : Nat} (value : α)
    (size : cells.length = cap) (headIn : head < cap) (tailIn : tail < cap)
    (room : gap cap head tail + 1 < cap) :
    segment (cells.set tail value) cap head ((tail + 1) % cap) =
      segment cells cap head tail ++ [value] := by
  unfold segment
  rw [gap_succ_tail headIn tailIn room, ← window_push value size (by omega),
    head_add_gap headIn tailIn]

/-- Dequeue at the head index: the contents lose their first value. -/
theorem segment_pop {cells : List α} {cap head tail : Nat} (headIn : head < cap)
    (tailIn : tail < cap) (nonempty : head ≠ tail) :
    segment cells cap head tail =
      cells.getD head default :: segment cells cap ((head + 1) % cap) tail := by
  unfold segment
  rw [gap_succ_head headIn tailIn nonempty, window_pop, Nat.mod_eq_of_lt headIn]

end NTUSP.Library.Ring
