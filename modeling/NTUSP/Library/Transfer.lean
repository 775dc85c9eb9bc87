import NTUSP.Library.Machine

/-!
# Transfers in pieces

A loop asks for what is missing of a transfer until nothing is. Each call moves as much as the
environment lets through, and it is the environment's action what the call returns: a positive
number up to the one asked for, 0, or a negative number for an error. What a call does to the
two ends is a parameter. No program is named here.
-/

namespace NTUSP.Library

universe u

/-- Where the loop is: it goes on, a call has moved nothing, or a call has failed. -/
inductive TransferPhase where
  | loop
  | stopped
  | failed
  deriving DecidableEq

/-- The number of units moved so far, and the two ends. -/
structure Transfer (Ends : Type u) where
  ends : Ends
  moved : Nat
  phase : TransferPhase

namespace Transfer

variable {Ends : Type u}

/-- The loop is left. -/
def Returned (length : Nat) (s : Transfer Ends) : Prop :=
  s.phase = .stopped ∨ s.phase = .loop ∧ length ≤ s.moved

/-- The loop is left, or the process has ended. -/
def Over (length : Nat) (s : Transfer Ends) : Prop := s.Returned length ∨ s.phase = .failed

/-- A call that returns `result` to a loop for `length` units. -/
def call (length : Nat) (move : Ends → Nat → Nat → Ends) (s : Transfer Ends) (result : Int) :
    Option (Transfer Ends) :=
  if s.phase = .loop ∧ s.moved < length ∧ result ≤ (length - s.moved : Nat) then
    if 0 < result then
      some { s with ends := move s.ends s.moved result.toNat, moved := s.moved + result.toNat }
    else if result = 0 then some { s with phase := .stopped }
    else some { s with phase := .failed }
  else none

/-- The loop from the start. -/
def loop (length : Nat) (move : Ends → Nat → Nat → Ends) (ends : Ends) :
    Machine (Transfer Ends) Int where
  Initial s := s = { ends := ends, moved := 0, phase := .loop }
  step s result := s.call length move result

/-- Every call moves something. -/
def positive (_ : Transfer Ends) (result : Int) : Prop := 0 < result

variable {length : Nat} {move : Ends → Nat → Nat → Ends} {ends : Ends} {s t : Transfer Ends}
  {result : Int}

/-- What a call can do. -/
theorem call_cases (called : s.call length move result = some t) :
    s.phase = .loop ∧ s.moved < length ∧
      ((∃ n, 0 < n ∧ s.moved + n ≤ length ∧ result = n ∧
          t = { s with ends := move s.ends s.moved n, moved := s.moved + n }) ∨
        (result = 0 ∧ t = { s with phase := .stopped }) ∨
        (result < 0 ∧ t = { s with phase := .failed })) := by
  unfold call at called
  split at called
  · rename_i asked
    obtain ⟨looping, missing, most⟩ := asked
    refine ⟨looping, missing, ?_⟩
    split at called
    · exact .inl ⟨result.toNat, by omega, by omega, by omega, (Option.some.inj called).symm⟩
    · split at called
      · rename_i zero
        exact .inr (.inl ⟨zero, (Option.some.inj called).symm⟩)
      · exact .inr (.inr ⟨by omega, (Option.some.inj called).symm⟩)
  · cases called

/-- What the two ends are like when `moved` units have been moved. -/
structure Carries (length : Nat) (move : Ends → Nat → Nat → Ends) (Inv : Nat → Ends → Prop) :
    Prop where
  moves : ∀ moved n ends, Inv moved ends → 0 < n → moved + n ≤ length →
    Inv (moved + n) (move ends moved n)

variable {Inv : Nat → Ends → Prop} {guard : Transfer Ends → Int → Prop}

/-- The ends are in order in every state of every run. -/
theorem Carries.reach (carries : Carries length move Inv) (first : Inv 0 ends)
    (reached : (loop length move ends).Reach guard s) : s.moved ≤ length ∧ Inv s.moved s.ends := by
  apply reached.invariant (fun s => s.moved ≤ length ∧ Inv s.moved s.ends)
  · rintro s rfl
    exact ⟨Nat.zero_le _, first⟩
  · intro s result t _ holds _ called
    obtain ⟨_, _, ⟨n, some, inside, _, rfl⟩ | ⟨_, rfl⟩ | ⟨_, rfl⟩⟩ := call_cases called
    · exact ⟨inside, carries.moves _ _ _ holds.2 some inside⟩
    · exact holds
    · exact holds

/-- A call may always move one unit. -/
theorem call_one (looping : s.phase = .loop) (missing : s.moved < length) :
    s.call length move 1 =
      some { s with ends := move s.ends s.moved 1, moved := s.moved + 1 } := by
  unfold call
  rw [if_pos ⟨looping, missing, by omega⟩]
  rfl

/-- A goal is inevitable if a call that does not reach it moves something and stays within an
invariant. -/
theorem inevitable_of_moves {goal : Transfer Ends → Prop} (Kept : Transfer Ends → Prop)
    (one : ∀ s, guard s 1)
    (moves : ∀ s result t, Kept s → s.phase = .loop → s.moved < length → guard s result →
      s.call length move result = some t →
        goal t ∨ Kept t ∧ t.phase = .loop ∧ t.moved < length ∧ s.moved < t.moved)
    (holds : Kept s) (looping : s.phase = .loop) (missing : s.moved < length) :
    (loop length move ends).Inevitable guard goal s := by
  apply Machine.Inevitable.of_variant Nat.lt_wfRel.wf
    (fun measure s => (Kept s ∧ s.phase = .loop ∧ s.moved < length) ∧ measure = length - s.moved)
    _ _ (length - s.moved) ⟨⟨holds, looping, missing⟩, rfl⟩
  · rintro _ s ⟨⟨_, looping, missing⟩, rfl⟩
    exact ⟨1, _, one s, call_one looping missing⟩
  · rintro _ s result t ⟨⟨holds, looping, missing⟩, rfl⟩ allowed called
    rcases moves s result t holds looping missing allowed called with
      done | ⟨still, looping', missing', further⟩
    · exact .inl done
    · refine .inr ⟨length - t.moved, ?_, ⟨still, looping', missing'⟩, rfl⟩
      change length - t.moved < length - s.moved
      omega

/-- Whatever the calls return, the loop ends. -/
theorem inevitable_over (looping : s.phase = .loop) :
    (loop length move ends).Inevitable Machine.anyStep (fun s => s.Over length) s := by
  by_cases missing : s.moved < length
  · apply inevitable_of_moves (fun _ => True) (fun _ => trivial) _ trivial looping missing
    intro s result t _ looping missing _ called
    obtain ⟨_, _, ⟨n, some, inside, _, rfl⟩ | ⟨_, rfl⟩ | ⟨_, rfl⟩⟩ := call_cases called
    · by_cases more : s.moved + n < length
      · exact .inr ⟨trivial, looping, more, Nat.lt_add_of_pos_right some⟩
      · exact .inl (.inl (.inr ⟨looping, Nat.not_lt.mp more⟩))
    · exact .inl (.inl (.inl rfl))
    · exact .inl (.inr rfl)
  · exact .now (.inl (.inr ⟨looping, Nat.not_lt.mp missing⟩))

/-- If every call moves something, the loop ends with the whole transfer. -/
theorem Carries.inevitable (carries : Carries length move Inv) (first : Inv 0 ends) :
    (loop length move ends).Inevitable positive
      (fun s => s.Returned length ∧ s.moved = length ∧ Inv length s.ends)
      { ends := ends, moved := 0, phase := .loop } := by
  by_cases missing : 0 < length
  · apply inevitable_of_moves (fun s => Inv s.moved s.ends) (fun _ => Int.one_pos) _ first rfl
      missing
    intro s result t holds looping missing positive called
    obtain ⟨_, _, ⟨n, some, inside, _, rfl⟩ | ⟨zero, _⟩ | ⟨negative, _⟩⟩ := call_cases called
    · have moved := carries.moves _ _ _ holds some inside
      by_cases more : s.moved + n < length
      · exact .inr ⟨moved, looping, more, Nat.lt_add_of_pos_right some⟩
      · have all : s.moved + n = length := by omega
        exact .inl ⟨.inr ⟨looping, Nat.le_of_eq all.symm⟩, all, all ▸ moved⟩
    · exact absurd zero (Int.ne_of_gt positive)
    · exact absurd negative (Int.not_lt.mpr (Int.le_of_lt positive))
  · obtain rfl : length = 0 := by omega
    exact .now ⟨.inr ⟨rfl, Nat.le_refl 0⟩, rfl, first⟩

/-- A call that moves nothing ends the loop and leaves the ends as they are. -/
theorem Carries.stop (carries : Carries length move Inv) (first : Inv 0 ends)
    (reached : (loop length move ends).Reach guard s)
    (called : (loop length move ends).step s 0 = some t) :
    t.Returned length ∧ t.moved = s.moved ∧ t.ends = s.ends ∧ Inv t.moved t.ends := by
  obtain ⟨_, holds⟩ := carries.reach first reached
  obtain ⟨_, _, ⟨n, some, _, zero, _⟩ | ⟨_, rfl⟩ | ⟨negative, _⟩⟩ := call_cases called
  · omega
  · exact ⟨.inl rfl, rfl, rfl, holds⟩
  · exact absurd negative (by decide)

/-- The loop does a transfer of `length` units, where `Inv` says what the ends are like behind
some of them. -/
structure Full (length : Nat) (machine : Machine (Transfer Ends) Int) (ends : Ends)
    (Inv : Nat → Ends → Prop) : Prop where
  initial : machine.Initial { ends := ends, moved := 0, phase := .loop }
  always : ∀ s, machine.Reach Machine.anyStep s → s.moved ≤ length ∧ Inv s.moved s.ends
  finishes : machine.Inevitable Machine.anyStep (fun s => s.Over length)
    { ends := ends, moved := 0, phase := .loop }
  whole : machine.Inevitable positive
    (fun s => s.Returned length ∧ s.moved = length ∧ Inv length s.ends)
    { ends := ends, moved := 0, phase := .loop }
  stops : ∀ s t, machine.Reach positive s → machine.step s 0 = some t →
    t.Returned length ∧ t.moved = s.moved ∧ t.ends = s.ends ∧ Inv t.moved t.ends

theorem Carries.full (carries : Carries length move Inv) (first : Inv 0 ends) :
    Full length (loop length move ends) ends Inv where
  initial := rfl
  always _ reached := carries.reach first reached
  finishes := inevitable_over rfl
  whole := carries.inevitable first
  stops _ _ reached called := carries.stop first reached called

end Transfer
end NTUSP.Library
