import Mathlib.Logic.Function.Basic
import Mathlib.Tactic.Common

/-!
# Claims on shared cells

Parties share cells, and each has owners that keep marks of their own on them. An owner
changes its mark first, and its party writes the cell later. A claim is sole if no owner has
a mark on the cell, no party is about to write it, and it is not settled. If every claim is
sole, no two owners ever have a mark on one cell, and a settled cell is never written again.
No program is named here.
-/

namespace NTUSP.Library.Claims

/-- A free cell may be claimed, and a claim is given back or settled. -/
inductive Mark where
  | free
  | claimed
  | settled
  deriving DecidableEq

/-- The cells, the marks of the owners, and what each party is about to write. -/
structure State (Party Owner Cell : Type*) where
  cell : Cell → Mark
  mark : Owner → Cell → Mark
  pending : Party → Option (Cell × Mark)

variable {Party Owner Cell : Type*}

namespace State

/-- An owner changes its mark, and its party will write it. -/
def put [DecidableEq Party] [DecidableEq Owner] [DecidableEq Cell] (s : State Party Owner Cell)
    (p : Party) (o : Owner) (c : Cell) (m : Mark) : State Party Owner Cell :=
  { s with
    mark := Function.update s.mark o (Function.update (s.mark o) c m)
    pending := Function.update s.pending p (some (c, m)) }

/-- A party writes what it was about to write. -/
def flush [DecidableEq Party] [DecidableEq Cell] (s : State Party Owner Cell) (p : Party) (c : Cell)
    (m : Mark) : State Party Owner Cell :=
  { s with
    cell := Function.update s.cell c m
    pending := Function.update s.pending p none }

/-- An owner forgets its marks. -/
def drop [DecidableEq Owner] (s : State Party Owner Cell) (o : Owner) : State Party Owner Cell :=
  { s with mark := Function.update s.mark o fun _ => .free }

variable (s : State Party Owner Cell) (p : Party) (o : Owner) (c : Cell) (m : Mark)

theorem drop_mark [DecidableEq Owner] (o' : Owner) (c' : Cell) :
    (s.drop o).mark o' c' = if o' = o then .free else s.mark o' c' := by
  by_cases same : o' = o <;> simp [drop, same]

variable [DecidableEq Party] [DecidableEq Cell]

theorem flush_pending (p' : Party) :
    (s.flush p c m).pending p' = if p' = p then none else s.pending p' := by
  by_cases same : p' = p <;> simp [flush, same]

theorem flush_cell (c' : Cell) : (s.flush p c m).cell c' = if c' = c then m else s.cell c' := by
  by_cases same : c' = c <;> simp [flush, same]

variable [DecidableEq Owner]

theorem put_mark (o' : Owner) (c' : Cell) :
    (s.put p o c m).mark o' c' = if o' = o ∧ c' = c then m else s.mark o' c' := by
  by_cases same : o' = o
  · subst same
    by_cases here : c' = c <;> simp [put, here]
  · simp [put, same]

theorem put_pending (p' : Party) :
    (s.put p o c m).pending p' = if p' = p then some (c, m) else s.pending p' := by
  by_cases same : p' = p <;> simp [put, same]

end State

/-- The cell is free, nobody has a mark on it, and no party is about to write it. -/
structure Clear (s : State Party Owner Cell) (c : Cell) : Prop where
  free : s.cell c = .free
  unmarked : ∀ o, s.mark o c = .free
  nobody : ∀ p m, s.pending p ≠ some (c, m)

namespace Clear

variable {s : State Party Owner Cell} {c c' : Cell} {m : Mark} {p : Party} {o : Owner}

theorem drop [DecidableEq Owner] (clear : Clear s c) : Clear (s.drop o) c where
  free := clear.free
  unmarked o' := by
    rw [State.drop_mark]
    split
    · rfl
    · exact clear.unmarked o'
  nobody := clear.nobody

variable [DecidableEq Party] [DecidableEq Cell]

/-- A write of another cell, and every write is one. -/
theorem flush (clear : Clear s c) (writes : s.pending p = some (c', m)) :
    Clear (s.flush p c' m) c where
  free := by
    rw [State.flush_cell, if_neg]
    · exact clear.free
    · rintro rfl
      exact clear.nobody p m writes
  unmarked := clear.unmarked
  nobody p' m' := by
    rw [State.flush_pending]
    split
    · nofun
    · exact clear.nobody p' m'

theorem put [DecidableEq Owner] (clear : Clear s c) (apart : c ≠ c') :
    Clear (s.put p o c' m) c where
  free := clear.free
  unmarked o' := by
    rw [State.put_mark, if_neg fun both => apart both.2]
    exact clear.unmarked o'
  nobody p' m' := by
    rw [State.put_pending]
    split
    · intro same
      exact apart (Prod.mk.inj (Option.some.inj same)).1.symm
    · exact clear.nobody p' m'

end Clear

variable (party : Owner → Party)

/-- What a party may be about to write: its owner's mark, or a claim that is given back. -/
def Backed (s : State Party Owner Cell) (p : Party) (c : Cell) : Mark → Prop
  | .free => s.cell c = .claimed ∧ ∀ o, s.mark o c = .free
  | .claimed => s.cell c ≠ .settled ∧ ∃ o, party o = p ∧ s.mark o c = .claimed
  | .settled => s.cell c = .claimed ∧ ∃ o, party o = p ∧ s.mark o c = .settled

/-- Every mark is sole and on its way to the cell, and every write is backed. -/
structure Sole (s : State Party Owner Cell) : Prop where
  alone : ∀ o o' c, s.mark o c ≠ .free → s.mark o' c ≠ .free → o = o'
  held : ∀ o c, s.mark o c ≠ .free →
    s.cell c = s.mark o c ∨ s.pending (party o) = some (c, s.mark o c)
  backed : ∀ p c m, s.pending p = some (c, m) → Backed party s p c m
  single : ∀ p p' c m m', s.pending p = some (c, m) → s.pending p' = some (c, m') → p = p'

namespace Sole

variable {party} {s : State Party Owner Cell} {p : Party} {o : Owner} {c : Cell} {m : Mark}

/-- A party that writes a cell somebody has a mark on is the party of that owner. -/
theorem party_eq (sole : Sole party s) (mine : s.mark o c ≠ .free)
    (writes : s.pending p = some (c, m)) : p = party o := by
  have backed := sole.backed p c m writes
  cases m with
  | free => exact absurd (backed.2 o) mine
  | claimed =>
    obtain ⟨_, o', own, mark⟩ := backed
    rw [← own, sole.alone o o' c mine (by simp [mark])]
  | settled =>
    obtain ⟨_, o', own, mark⟩ := backed
    rw [← own, sole.alone o o' c mine (by simp [mark])]

/-- The cell of an owner whose party writes nothing. -/
theorem cell_of_mark (sole : Sole party s) (quiet : s.pending (party o) = none)
    (mine : s.mark o c ≠ .free) : s.cell c = s.mark o c := by
  rcases sole.held o c mine with same | writes
  · exact same
  · rw [quiet] at writes
    cases writes

/-- Nobody else has a mark on a claimed cell or writes it, and it says so. -/
theorem of_claimed (sole : Sole party s) (quiet : s.pending (party o) = none)
    (mine : s.mark o c = .claimed) :
    s.cell c = .claimed ∧ (∀ o', o' ≠ o → s.mark o' c = .free) ∧
      ∀ p m, s.pending p ≠ some (c, m) := by
  have marked : s.mark o c ≠ .free := by simp [mine]
  refine ⟨(sole.cell_of_mark quiet marked).trans mine, fun o' other => ?_, fun p m writes => ?_⟩
  · by_contra mark
    exact other (sole.alone o' o c mark marked)
  · rw [sole.party_eq marked writes, quiet] at writes
    cases writes

/-- A settled cell is none that a party is about to write. -/
theorem not_settled (sole : Sole party s) (writes : s.pending p = some (c, m)) :
    s.cell c ≠ .settled := by
  have backed := sole.backed p c m writes
  cases m with
  | free => simp [backed.1]
  | claimed => exact backed.1
  | settled => simp [backed.1]

/-- Nothing happens at a free cell unless somebody has claimed it and is about to write it. -/
theorem clear (sole : Sole party s) (free : s.cell c = .free)
    (nobody : ∀ p, s.pending p ≠ some (c, .claimed)) : Clear s c where
  free := free
  unmarked o := by
    by_contra marked
    rcases sole.held o c marked with same | writes
    · exact marked (same.symm.trans free)
    · cases mark : s.mark o c with
      | free => exact marked mark
      | claimed => exact nobody _ (mark ▸ writes)
      | settled =>
        have backed := sole.backed _ c _ (mark ▸ writes)
        exact absurd (free.symm.trans backed.1) (by decide)
  nobody p m writes := by
    have backed := sole.backed p c m writes
    cases m with
    | claimed => exact nobody p writes
    | free | settled => exact absurd (free.symm.trans backed.1) (by decide)

/-- An owner whose party writes nothing forgets its marks. -/
theorem drop [DecidableEq Owner] (sole : Sole party s) (quiet : s.pending (party o) = none) :
    Sole party (s.drop o) where
  alone o₁ o₂ c' mark₁ mark₂ := by
    rw [State.drop_mark] at mark₁ mark₂
    split at mark₁
    · exact absurd rfl mark₁
    · split at mark₂
      · exact absurd rfl mark₂
      · exact sole.alone o₁ o₂ c' mark₁ mark₂
  held o' c' mark := by
    rw [State.drop_mark] at mark ⊢
    split at mark
    · exact absurd rfl mark
    · rename_i other
      rw [if_neg other]
      exact sole.held o' c' mark
  backed p' c' m' writes := by
    have before : s.pending p' = some (c', m') := writes
    have backed := sole.backed p' c' m' before
    have kept : ∀ o', party o' = p' → (s.drop o).mark o' c' = s.mark o' c' := by
      intro o' own
      rw [State.drop_mark, if_neg]
      intro same
      rw [← own, same, quiet] at before
      cases before
    cases m' with
    | free =>
      refine ⟨backed.1, fun o' => ?_⟩
      rw [State.drop_mark]
      split
      · rfl
      · exact backed.2 o'
    | claimed =>
      obtain ⟨cell, o', own, mark⟩ := backed
      exact ⟨cell, o', own, (kept o' own).trans mark⟩
    | settled =>
      obtain ⟨cell, o', own, mark⟩ := backed
      exact ⟨cell, o', own, (kept o' own).trans mark⟩
  single := sole.single

variable [DecidableEq Party] [DecidableEq Cell]

theorem flush_settled (sole : Sole party s) (writes : s.pending p = some (c, m)) {c' : Cell}
    (settled : s.cell c' = .settled) : (s.flush p c m).cell c' = .settled := by
  rw [State.flush_cell, if_neg]
  · exact settled
  · rintro rfl
    exact sole.not_settled writes settled

/-- A party writes its cell. -/
theorem flush (sole : Sole party s) (writes : s.pending p = some (c, m)) :
    Sole party (s.flush p c m) where
  alone := sole.alone
  held o' c' mark := by
    have mark : s.mark o' c' ≠ .free := mark
    change (s.flush p c m).cell c' = s.mark o' c' ∨
      (s.flush p c m).pending (party o') = some (c', s.mark o' c')
    rw [State.flush_cell, State.flush_pending]
    by_cases here : c' = c
    · subst here
      have own := sole.party_eq mark writes
      rw [if_pos rfl]
      have backed := sole.backed p c' m writes
      cases m with
      | free => exact absurd (backed.2 o') mark
      | claimed =>
        obtain ⟨_, o, _, mine⟩ := backed
        rw [sole.alone o' o c' mark (by simp [mine]), mine]
        exact .inl rfl
      | settled =>
        obtain ⟨_, o, _, mine⟩ := backed
        rw [sole.alone o' o c' mark (by simp [mine]), mine]
        exact .inl rfl
    · rw [if_neg here]
      rcases sole.held o' c' mark with same | other
      · exact .inl same
      · right
        rw [if_neg]
        · exact other
        · intro same
          rw [same, writes] at other
          exact here (Prod.mk.inj (Option.some.inj other)).1.symm
  backed p' c' m' others := by
    rw [State.flush_pending] at others
    split at others
    · cases others
    · rename_i different
      have apart : c' ≠ c := by
        rintro rfl
        exact different (sole.single p' p c' m' m others writes)
      have cell : (s.flush p c m).cell c' = s.cell c' := by rw [State.flush_cell, if_neg apart]
      have backed := sole.backed p' c' m' others
      cases m' with
      | free => exact ⟨cell.trans backed.1, backed.2⟩
      | claimed => exact ⟨cell ▸ backed.1, backed.2⟩
      | settled => exact ⟨cell.trans backed.1, backed.2⟩
  single p₁ p₂ c' m₁ m₂ writes₁ writes₂ := by
    rw [State.flush_pending] at writes₁ writes₂
    split at writes₁
    · cases writes₁
    · split at writes₂
      · cases writes₂
      · exact sole.single p₁ p₂ c' m₁ m₂ writes₁ writes₂

variable [DecidableEq Owner]

/-- Backed writes of other parties on other cells stay backed. -/
theorem backed_put (sole : Sole party s) {p' : Party} {c' : Cell} {m' : Mark}
    (writes : s.pending p' = some (c', m')) (apart : c' ≠ c) :
    Backed party (s.put (party o) o c m) p' c' m' := by
  have marks : ∀ o', (s.put (party o) o c m).mark o' c' = s.mark o' c' := by
    intro o'
    rw [State.put_mark, if_neg fun both => apart both.2]
  have backed := sole.backed p' c' m' writes
  cases m' with
  | free => exact ⟨backed.1, fun o' => (marks o').trans (backed.2 o')⟩
  | claimed =>
    obtain ⟨cell, o', own, mark⟩ := backed
    exact ⟨cell, o', own, (marks o').trans mark⟩
  | settled =>
    obtain ⟨cell, o', own, mark⟩ := backed
    exact ⟨cell, o', own, (marks o').trans mark⟩

/-- An owner puts a mark on a cell that nobody else has one on and nobody writes. -/
theorem put (sole : Sole party s) (quiet : s.pending (party o) = none)
    (others : ∀ o', o' ≠ o → s.mark o' c = .free) (nobody : ∀ p m, s.pending p ≠ some (c, m))
    (backed : Backed party (s.put (party o) o c m) (party o) c m) :
    Sole party (s.put (party o) o c m) where
  alone o₁ o₂ c' mark₁ mark₂ := by
    rw [State.put_mark] at mark₁ mark₂
    by_cases here : c' = c
    · subst here
      have own : ∀ o', (if o' = o ∧ c' = c' then m else s.mark o' c') ≠ .free → o' = o := by
        intro o' mark
        by_contra other
        rw [if_neg fun both => other both.1, others o' other] at mark
        exact mark rfl
      exact (own o₁ mark₁).trans (own o₂ mark₂).symm
    · rw [if_neg fun both => here both.2] at mark₁ mark₂
      exact sole.alone o₁ o₂ c' mark₁ mark₂
  held o' c' mark := by
    rw [State.put_pending]
    rw [State.put_mark] at mark ⊢
    by_cases mine : o' = o ∧ c' = c
    · obtain ⟨rfl, rfl⟩ := mine
      rw [if_pos ⟨rfl, rfl⟩, if_pos rfl]
      exact .inr rfl
    · rw [if_neg mine] at mark ⊢
      rcases sole.held o' c' mark with same | writes
      · exact .inl same
      · have other : party o' ≠ party o := by
          intro same
          rw [same, quiet] at writes
          cases writes
        rw [if_neg other]
        exact .inr writes
  backed p' c' m' writes := by
    rw [State.put_pending] at writes
    split at writes
    · rename_i same
      obtain ⟨rfl, rfl⟩ := Prod.mk.inj (Option.some.inj writes)
      rw [same]
      exact backed
    · refine sole.backed_put writes ?_
      rintro rfl
      exact nobody p' m' writes
  single p₁ p₂ c' m₁ m₂ writes₁ writes₂ := by
    rw [State.put_pending] at writes₁ writes₂
    split at writes₁
    · rename_i same₁
      split at writes₂
      · rename_i same₂
        exact same₁.trans same₂.symm
      · obtain ⟨rfl, rfl⟩ := Prod.mk.inj (Option.some.inj writes₁)
        exact absurd writes₂ (nobody p₂ m₂)
    · split at writes₂
      · obtain ⟨rfl, rfl⟩ := Prod.mk.inj (Option.some.inj writes₂)
        exact absurd writes₁ (nobody p₁ m₁)
      · exact sole.single p₁ p₂ c' m₁ m₂ writes₁ writes₂

/-- A sole claim. -/
theorem claim (sole : Sole party s) (quiet : s.pending (party o) = none)
    (unmarked : ∀ o', s.mark o' c = .free) (nobody : ∀ p m, s.pending p ≠ some (c, m))
    (unsettled : s.cell c ≠ .settled) : Sole party (s.put (party o) o c .claimed) := by
  apply sole.put quiet (fun o' _ => unmarked o') nobody
  exact ⟨unsettled, o, rfl, by rw [State.put_mark, if_pos ⟨rfl, rfl⟩]⟩

/-- A claim is given back. -/
theorem release (sole : Sole party s) (quiet : s.pending (party o) = none)
    (mine : s.mark o c = .claimed) : Sole party (s.put (party o) o c .free) := by
  obtain ⟨cell, others, nobody⟩ := sole.of_claimed quiet mine
  refine sole.put quiet others nobody ⟨cell, fun o' => ?_⟩
  rw [State.put_mark]
  by_cases same : o' = o
  · rw [if_pos ⟨same, rfl⟩]
  · rw [if_neg fun both => same both.1]
    exact others o' same

/-- A claim is settled. -/
theorem settle (sole : Sole party s) (quiet : s.pending (party o) = none)
    (mine : s.mark o c = .claimed) : Sole party (s.put (party o) o c .settled) := by
  obtain ⟨cell, others, nobody⟩ := sole.of_claimed quiet mine
  refine sole.put quiet others nobody ⟨cell, o, rfl, ?_⟩
  rw [State.put_mark, if_pos ⟨rfl, rfl⟩]

end Sole
end NTUSP.Library.Claims
