import Mathlib.Data.List.TakeWhile
import Mathlib.Tactic.Common

/-!
# C strings

Strings as lists of characters without the terminating NUL, with the functions of
`<string.h>` and `<stdlib.h>` that parse client input.
-/

namespace NTUSP.Library.CString

/-- `isspace` in the C locale. -/
def isSpace (c : Char) : Bool :=
  c = ' ' || (decide (9 ≤ c.toNat) && decide (c.toNat ≤ 13))

/-- The string an array of bytes holds: up to its first NUL. -/
def cstr (bytes : List Char) : List Char := bytes.takeWhile (· ≠ '\x00')

/-- The index of the first occurrence of `needle`. -/
def strstr (needle : List Char) : List Char → Option Nat
  | [] => if needle.isEmpty then some 0 else none
  | c :: rest =>
      if needle.isPrefixOf (c :: rest) then some 0 else (strstr needle rest).map (· + 1)

/-- The number the leading digits spell, behind the digits read so far. -/
def digits (read : Nat) : List Char → Nat
  | [] => read
  | c :: rest => if c.isDigit then digits (10 * read + (c.toNat - '0'.toNat)) rest else read

/-- The ends of a 64-bit `long`. -/
def LONG_MIN : Int := -9223372036854775808

def LONG_MAX : Int := 9223372036854775807

/-- The number of values of a 32-bit `int`. -/
def INT_VALUES : Nat := 4294967296

/-- `strtol(text, NULL, 10)`: out of range it is the nearest end. -/
def strtol (text : List Char) : Int :=
  let value : Int :=
    match text.dropWhile isSpace with
    | '-' :: rest => -(digits 0 rest : Int)
    | '+' :: rest => digits 0 rest
    | rest => digits 0 rest
  if value < LONG_MIN then LONG_MIN else if LONG_MAX < value then LONG_MAX else value

/-- `atoi`: the result of `strtol` cut to an `int`. -/
def atoi (text : List Char) : Int := (strtol text).bmod INT_VALUES

/-- `strtok` with one delimiter: the first token, and the text behind the delimiter that
ends it. -/
def strtok (delim : Char) (text : List Char) : Option (List Char × List Char) :=
  match text.dropWhile (· = delim) with
  | [] => none
  | c :: rest =>
      some ((c :: rest).takeWhile (· ≠ delim), ((c :: rest).dropWhile (· ≠ delim)).drop 1)

/-- The part before the first `c` is determined. -/
theorem append_cons_inj_of_first {c : Char} {before before' after after' : List Char}
    (first : c ∉ before) (first' : c ∉ before')
    (same : before ++ c :: after = before' ++ c :: after') : before = before' ∧ after = after' := by
  induction before generalizing before' with
  | nil =>
    cases before' with
    | nil => exact ⟨rfl, (List.cons.inj same).2⟩
    | cons d rest => exact absurd (List.cons.inj same).1 (List.ne_of_not_mem_cons first')
  | cons d before ih =>
    cases before' with
    | nil => exact absurd (List.cons.inj same).1.symm (List.ne_of_not_mem_cons first)
    | cons d' before' =>
      obtain ⟨rfl, rest⟩ := List.cons.inj same
      obtain ⟨rfl, rfl⟩ := ih (List.not_mem_of_not_mem_cons first)
        (List.not_mem_of_not_mem_cons first') rest
      exact ⟨rfl, rfl⟩

/-- What `strstr` finds is there. -/
theorem strstr_sound {needle text : List Char} {n : Nat} (found : strstr needle text = some n) :
    needle <:+: text := by
  induction text generalizing n with
  | nil =>
    unfold strstr at found
    split at found
    · rename_i empty
      have nothing : needle = [] := List.isEmpty_iff.mp empty
      exact nothing ▸ List.nil_infix
    · cases found
  | cons c text ih =>
    unfold strstr at found
    split at found
    · rename_i here
      exact (List.isPrefixOf_iff_prefix.mp here).isInfix
    · obtain ⟨m, later, _⟩ := Option.map_eq_some_iff.mp found
      exact (ih later).trans (List.suffix_cons c text).isInfix

theorem strstr_eq_none {needle text : List Char} (absent : ¬ needle <:+: text) :
    strstr needle text = none := by
  cases found : strstr needle text with
  | none => rfl
  | some n => exact absurd (strstr_sound found) absent

/-- A needle is found first where its last character is. -/
theorem strstr_append {last : Char} {start before : List Char} (apart : last ∉ start)
    (first : last ∉ before) (after : List Char) :
    strstr (start ++ [last]) (before ++ (start ++ last :: after)) = some before.length := by
  induction before with
  | nil =>
    cases start with
    | nil => simp [strstr]
    | cons c start => simp [strstr]
  | cons c before ih =>
    have rest := ih (List.not_mem_of_not_mem_cons first)
    have elsewhere : (start ++ [last]).isPrefixOf (c :: before ++ (start ++ last :: after)) =
        false := by
      rw [Bool.eq_false_iff, Ne, List.isPrefixOf_iff_prefix]
      rintro ⟨more, same⟩
      rw [List.append_assoc, List.singleton_append, ← List.append_assoc] at same
      have split := append_cons_inj_of_first apart
        (List.not_mem_append first apart) same
      have length := congrArg List.length split.1
      simp only [List.cons_append, List.length_cons, List.length_append] at length
      omega
    rw [List.cons_append] at elsewhere ⊢
    unfold strstr
    rw [elsewhere, rest]
    rfl

/-- A token behind which the text ends or a delimiter stands. -/
theorem strtok_of_ends {delim : Char} {token rest : List Char} (nonempty : token ≠ [])
    (inside : delim ∉ token) (ends : ∀ c ∈ rest.head?, c = delim) :
    strtok delim (token ++ rest) = some (token, rest.drop 1) := by
  have plain : ∀ c ∈ token, (decide (c ≠ delim)) = true := by
    intro c member
    simpa using fun same : c = delim => inside (same ▸ member)
  have taken : (token ++ rest).takeWhile (· ≠ delim) = token := by
    rw [List.takeWhile_append_of_pos plain]
    cases rest with
    | nil => simp
    | cons c rest => simp [ends c rfl]
  have dropped : (token ++ rest).dropWhile (· ≠ delim) = rest := by
    rw [List.dropWhile_append_of_pos plain]
    cases rest with
    | nil => rfl
    | cons c rest => simp [ends c rfl]
  cases token with
  | nil => exact absurd rfl nonempty
  | cons c token =>
    have start : c ≠ delim := by simpa using plain c List.mem_cons_self
    have first : (c :: token ++ rest).dropWhile (· = delim) = c :: (token ++ rest) := by
      simp [start]
    rw [List.cons_append] at taken dropped
    unfold strtok
    simp only [first, taken, dropped]

/-- A token before a delimiter. -/
theorem strtok_append {delim : Char} {token : List Char} (nonempty : token ≠ [])
    (inside : delim ∉ token) (rest : List Char) :
    strtok delim (token ++ delim :: rest) = some (token, rest) :=
  strtok_of_ends nonempty inside (by simp)

/-- A token at the end of the text. -/
theorem strtok_last {delim : Char} {token : List Char} (nonempty : token ≠ [])
    (inside : delim ∉ token) : strtok delim token = some (token, []) := by
  have ends : ∀ c ∈ ([] : List Char).head?, c = delim := by simp
  have whole := strtok_of_ends nonempty inside ends
  rwa [List.append_nil] at whole

example : atoi "  -12x".toList = -12 := by decide

end NTUSP.Library.CString
