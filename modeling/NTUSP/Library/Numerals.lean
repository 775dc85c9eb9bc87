import Mathlib.Data.Nat.Digits.Defs
import NTUSP.Library.CString

/-!
# Lists of numerals

Texts that hold numbers in decimal, joined by a separator. `atoi` reads a numeral back, and a
text of numerals is read back by splitting it at the separators.
-/

namespace NTUSP.Library.CString

/-- What `%d` prints of a number that is not negative. -/
def numeral (n : Nat) : List Char := (toString n).toList

/-- The numbers between the separators of a text. -/
def numbers (separator : Char) (text : List Char) : List Int :=
  ((text.splitOn separator).filter (· ≠ [])).map atoi

variable {separator : Char} {n width : Nat} {ns : List Nat} {text : List Char}

theorem numeral_eq_toDigits (n : Nat) : numeral n = Nat.toDigits 10 n := by
  simp [numeral]

theorem isDigit_of_mem_numeral {c : Char} (member : c ∈ numeral n) : c.isDigit = true := by
  rw [numeral_eq_toDigits] at member
  exact Nat.isDigit_of_mem_toDigits (by decide) (by decide) member

theorem numeral_ne_nil (n : Nat) : numeral n ≠ [] := by
  rw [numeral_eq_toDigits]
  exact List.ne_nil_of_length_pos Nat.length_toDigits_pos

theorem length_numeral_le (some : 0 < width) : (numeral n).length ≤ width ↔ n < 10 ^ width := by
  rw [numeral_eq_toDigits]
  exact Nat.length_toDigits_le_iff (by decide) some

/-- A character that is not a digit is in no numeral. -/
theorem not_mem_numeral (other : separator.isDigit = false) (n : Nat) : separator ∉ numeral n := by
  intro member
  rw [isDigit_of_mem_numeral member] at other
  cases other

/-- What `%d` prints is a numeral with a sign or without. -/
theorem toString_toList (z : Int) :
    (toString z).toList = numeral z.natAbs ∨ (toString z).toList = '-' :: numeral z.natAbs := by
  cases z with
  | ofNat n => exact .inl rfl
  | negSucc n =>
    refine .inr ?_
    change ("-" ++ Nat.repr (n + 1)).toList = '-' :: (Nat.repr (n + 1)).toList
    rw [String.toList_append]
    rfl

/-- On digits only, `digits` reads them all. -/
theorem digits_eq_ofDigitChars {read : Nat} (all : ∀ c ∈ text, c.isDigit = true) :
    digits read text = Nat.ofDigitChars 10 text read := by
  induction text generalizing read with
  | nil => simp [digits]
  | cons c rest ih =>
    rw [digits, if_pos (all c List.mem_cons_self),
      ih fun d later => all d (List.mem_cons_of_mem _ later), Nat.ofDigitChars_cons]

theorem digits_numeral (n : Nat) : digits 0 (numeral n) = n := by
  rw [digits_eq_ofDigitChars fun c => isDigit_of_mem_numeral, numeral_eq_toDigits]
  exact Nat.ofDigitChars_ten_toDigits

/-- In front of a digit `strtol` skips nothing and sees no sign. -/
theorem strtol_of_isDigit {c : Char} {rest : List Char} (digit : c.isDigit = true)
    (inside : (digits 0 (c :: rest) : Int) ≤ LONG_MAX) :
    strtol (c :: rest) = digits 0 (c :: rest) := by
  have bounds : 48 ≤ c.toNat ∧ c.toNat ≤ 57 := Char.isDigit_iff_toNat.mp digit
  have other : ∀ d : Char, d.toNat < 48 → c ≠ d := by
    rintro d below rfl
    omega
  have solid : isSpace c = false := by
    unfold isSpace
    rw [decide_eq_false (other ' ' (by decide)), decide_eq_false (by omega : ¬ c.toNat ≤ 13)]
    simp
  have positive : ¬ (digits 0 (c :: rest) : Int) < LONG_MIN := by
    unfold LONG_MIN
    omega
  unfold strtol
  rw [List.dropWhile_cons_of_neg (by simp [solid])]
  split
  · rename_i same
    exact absurd (List.cons.inj same).1 (other '-' (by decide))
  · rename_i same
    exact absurd (List.cons.inj same).1 (other '+' (by decide))
  · rw [if_neg positive, if_neg (Int.not_lt.mpr inside)]

/-- `atoi` reads back what `%d` prints. -/
theorem atoi_numeral (inside : n < 2147483648) : atoi (numeral n) = n := by
  have read := digits_numeral n
  cases spelled : numeral n with
  | nil => exact absurd spelled (numeral_ne_nil n)
  | cons c rest =>
    rw [spelled] at read
    have digit : c.isDigit = true := isDigit_of_mem_numeral (n := n) (by simp [spelled])
    unfold atoi
    rw [strtol_of_isDigit digit (by rw [read]; unfold LONG_MAX; omega), read]
    unfold INT_VALUES
    exact Int.bmod_eq_of_le (by omega) (by omega)

/-! ## Joined by a separator -/

/-- One more text at the end. -/
theorem intercalate_concat (separator : Char) (texts : List (List Char)) (last : List Char) :
    [separator].intercalate (texts ++ [last]) =
      [separator].intercalate texts ++ (if texts = [] then [] else [separator]) ++ last := by
  induction texts with
  | nil => simp
  | cons text rest ih =>
    cases rest with
    | nil => simp [List.intercalate_cons_cons]
    | cons next rest =>
      rw [List.cons_append, List.cons_append, List.intercalate_cons_cons, ← List.cons_append, ih,
        List.intercalate_cons_cons]
      simp

/-- A joined text has the characters of its parts and the separator. -/
theorem not_mem_intercalate {c : Char} {texts : List (List Char)} (other : c ≠ separator)
    (apart : ∀ text ∈ texts, c ∉ text) : c ∉ [separator].intercalate texts := by
  induction texts with
  | nil => simp
  | cons text rest ih =>
    have first := apart text List.mem_cons_self
    have later := ih fun text member => apart text (List.mem_cons_of_mem _ member)
    cases rest with
    | nil => simpa using first
    | cons next rest =>
      rw [List.intercalate_cons_cons]
      simp [first, other, later]

/-- The numbers of a list, as `numbers` reads them. -/
theorem numbers_intercalate (other : separator.isDigit = false)
    (inside : ∀ n ∈ ns, n < 2147483648) :
    numbers separator ([separator].intercalate (ns.map numeral)) = ns.map Int.ofNat := by
  have apart : ∀ text ∈ ns.map numeral, separator ∉ text := by
    intro text member
    obtain ⟨n, _, rfl⟩ := List.mem_map.mp member
    exact not_mem_numeral other n
  have filled : (ns.map numeral).filter (· ≠ []) = ns.map numeral := by
    refine List.filter_eq_self.mpr fun text member => ?_
    obtain ⟨n, _, rfl⟩ := List.mem_map.mp member
    simpa using numeral_ne_nil n
  have read : (ns.map numeral).map atoi = ns.map Int.ofNat := by
    rw [List.map_map]
    exact List.map_congr_left fun n member => atoi_numeral (inside n member)
  unfold numbers
  by_cases empty : ns = []
  · simp [empty]
  · rw [List.splitOn_intercalate separator apart (by simpa using empty), filled, read]

end NTUSP.Library.CString
