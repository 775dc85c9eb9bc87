import NTUSP.Server.DoubleBooking
import Mathlib.Data.Fintype.Prod

/-!
# Schedules without a race

A process books a seat from the `checkCurr` that finds it available to the store of its `'2'`.
If no process checks a cell while another one books it, every seat is still unclaimed when a
record takes it, so nothing is asked of the records or of the files.
-/

namespace NTUSP.Server

open NTUSP.Library CString

namespace Phase

/-- The process has found the seat available, and its record takes it next. -/
def Found (cfg : Config) (c : Cell) : Phase → Prop
  | .take _ bookNum trainFd => Names cfg c bookNum trainFd
  | _ => False

/-- The process is between its check of the cell and its store. -/
def Books (cfg : Config) (c : Cell) (phase : Phase) : Prop := phase.Found cfg c ∨ phase.Stores cfg c

theorem Found.not_stores {cfg : Config} {c : Cell} {phase : Phase} (found : phase.Found cfg c) :
    ¬ phase.Stores cfg c := by
  cases phase <;> first | exact id | exact False.elim found

instance (cfg : Config) (c : Cell) : (phase : Phase) → Decidable (phase.Books cfg c)
  | .take _ bookNum trainFd =>
      inferInstanceAs (Decidable (Names cfg c bookNum trainFd ∨ False))
  | .takeStore _ bookNum trainFd =>
      inferInstanceAs (Decidable (False ∨ Names cfg c bookNum trainFd))
  | .idle | .occupied .. | .checkCurr .. | .cancelStore .. | .pay .. | .payStore .. =>
      isFalse fun books => books.elim id id

end Phase

/-! ## How a process comes to book a seat -/

section

variable {cfg : Config} {w : World} {phase : Phase} {c : Cell} {env : Env} {i : Nat}

theorem beginSeat_books : ¬ (w.beginSeat cfg env i).2.Books cfg c := by
  unfold World.beginSeat World.beginCancel
  dsimp only
  repeat' split
  all_goals exact fun books => books.elim id id

/-- A line does not begin with booking a seat. -/
theorem beginLine_books : ¬ (w.beginLine cfg env i).2.Books cfg c := by
  unfold World.beginLine World.beginShift World.beginPay
  dsimp only
  repeat' split
  all_goals first | exact fun books => books.elim id id | exact beginSeat_books

theorem begin_books {action : Action} {next : World × Phase}
    (begun : w.begin cfg action = some next) : ¬ next.2.Books cfg c := by
  unfold World.begin at begun
  split at begun
  · cases begun
  cases action with
  | accept fd | timeout i =>
    dsimp only at begun
    split at begun
    · rw [← Option.some.inj begun]
      exact fun books => books.elim id id
    · cases begun
  | recv i chunk env =>
    dsimp only at begun
    split at begun
    · split at begun
      · rw [← Option.some.inj begun]
        exact fun books => books.elim id id
      · rw [← Option.some.inj begun]
        exact beginLine_books
      · cases begun
    · cases begun

/-- A record takes a seat behind the first `checkCurr` of the line, which has found it available,
and then the `'2'` is stored. -/
theorem proceed_books (books : (w.proceed cfg phase).2.Books cfg c) :
    ((w.proceed cfg phase).2.Found cfg c ∧ ∃ i env bookNum trainFd,
      phase = .checkCurr i env 0 bookNum trainFd ∧ Names cfg c bookNum trainFd ∧
        (w.checkCurr cfg env 0 i bookNum).2 = some 0) ∨
      ((w.proceed cfg phase).2.Stores cfg c ∧ phase.Found cfg c) := by
  cases phase with
  | checkCurr i env call bookNum trainFd =>
    unfold World.proceed at books ⊢
    dsimp only at books ⊢
    generalize called : w.checkCurr cfg env call i bookNum = result at books ⊢
    obtain ⟨t, none | code⟩ := result
    · exact books.elim False.elim False.elim
    obtain _ | _ | call := call <;> simp only [World.afterCheck] at books ⊢ <;> split at books
    case zero.isTrue available =>
      have found : Names cfg c bookNum trainFd := books.resolve_right id
      rw [if_pos available]
      exact .inl ⟨found, i, env, bookNum, trainFd, rfl, found, by rw [called, available]⟩
    all_goals exact books.elim False.elim False.elim
  | take i bookNum trainFd =>
    unfold World.proceed at books ⊢
    dsimp only at books ⊢
    split at books
    · exact books.elim False.elim False.elim
    · rename_i going
      have stores : Names cfg c bookNum trainFd := books.resolve_left id
      rw [if_neg going]
      exact .inr ⟨stores, stores⟩
  | occupied i env call fd =>
    unfold World.proceed at books
    dsimp only at books
    obtain _ | _ | call := call <;> simp only [World.afterOccupied] at books <;>
      split at books <;> exact books.elim False.elim False.elim
  | idle => exact books.elim False.elim False.elim
  | takeStore | cancelStore | pay | payStore =>
    unfold World.proceed at books
    dsimp only at books
    repeat' split at books
    all_goals exact books.elim False.elim False.elim

end

/-! ## The schedules -/

namespace Shared

variable {Process : Type}

/-- A line is checked against its cell first while no other process books the seat. -/
def Checks (cfg : Process → Config) (s : Shared Process) (p : Process) : Phase → Prop
  | .checkCurr _ _ 0 bookNum trainFd =>
      ∀ c, Names (cfg p) c bookNum trainFd → ∀ q, q ≠ p → ¬ (s.proc q).phase.Books (cfg q) c
  | _ => True

/-- Seat lines are in range, and no process checks a cell while another one is between its check
of that cell and its store. -/
def Undisturbed (cfg : Process → Config) (s : Shared Process) : SharedAction Process → Prop
  | .serve p action => inRange (s.mounted cfg p) action
  | .proceed p => s.Checks cfg p (s.proc p).phase

section

variable [Fintype Process] [DecidableEq Process]

instance (cfg : Process → Config) (s : Shared Process) (p : Process) :
    (phase : Phase) → Decidable (s.Checks cfg p phase)
  | .checkCurr _ _ 0 bookNum trainFd =>
      inferInstanceAs (Decidable (∀ c, Names (cfg p) c bookNum trainFd →
        ∀ q, q ≠ p → ¬ (s.proc q).phase.Books (cfg q) c))
  | .checkCurr _ _ (_ + 1) _ _ | .idle | .occupied .. | .take .. | .takeStore .. |
    .cancelStore .. | .pay .. | .payStore .. => isTrue trivial

instance (cfg : Process → Config) (s : Shared Process) :
    (action : SharedAction Process) → Decidable (s.Undisturbed cfg action)
  | .serve p action => inferInstanceAs (Decidable (inRange (s.mounted cfg p) action))
  | .proceed p => inferInstanceAs (Decidable (s.Checks cfg p (s.proc p).phase))

end

/-- A seat that is being booked is booked by one process, and nobody claims it before that process
does. -/
structure Alone (cfg : Process → Config) (s : Shared Process)
    (claims : Claims.State Process (Process × Nat) Cell) : Prop where
  clear : ∀ p c, (s.proc p).phase.Found (cfg p) c → Claims.Clear claims c
  single : ∀ p q c, (s.proc p).phase.Books (cfg p) c → (s.proc q).phase.Books (cfg q) c → p = q

end Shared

section

variable {Process : Type} {cfg : Process → Config} {p : Process}
  {claims : Claims.State Process (Process × Nat) Cell} {s t : Shared Process} {c : Cell}

/-- A seat at whose cell nothing happens is unclaimed. -/
theorem Represents.unclaimed_of_clear (represents : Represents cfg s claims)
    (clear : Claims.Clear claims c) : s.Unclaimed cfg p c.1 c.2 := by
  refine ⟨?_, fun q _ => ⟨fun cancels => ?_, fun i _ on => ?_⟩⟩
  · rw [represents.stored c, clear.free]
    decide
  · have fits := (represents.stands q).fits
    cases at_phase : (s.proc q).phase with
    | cancelStore i bookNum trainFd =>
      rw [at_phase] at fits cancels
      obtain ⟨c', serves, writes⟩ := fits
      have same : c = c' := Names.unique cancels ⟨serves.train, serves.index⟩
      exact clear.nobody q .free (same ▸ writes)
    | _ =>
      rw [at_phase] at cancels
      cases cancels
  · have mark := (represents.stands q).on i c on
    rw [clear.unmarked] at mark
    exact Seat.mark_eq_free.mp mark.symm

/-- Undisturbed, a record takes a seat that is unclaimed. -/
theorem Shared.Alone.takesUnclaimed {action : SharedAction Process} (alone : s.Alone cfg claims)
    (represents : Represents cfg s claims) (allowed : s.Undisturbed cfg action) :
    s.TakesUnclaimed cfg action := by
  cases action with
  | serve p action => exact allowed
  | proceed p =>
    change s.Takes cfg p (s.proc p).phase
    have clear := alone.clear p
    cases at_phase : (s.proc p).phase with
    | take i bookNum trainFd =>
      rw [at_phase] at clear
      intro j k bound train index
      exact represents.unclaimed_of_clear (clear (j, ⟨k, bound⟩) ⟨train, index⟩)
    | _ => trivial

variable [DecidableEq Process]

/-- Undisturbed, a seat is found available only where nothing happens. -/
theorem Shared.Alone.found {next : World × Phase} {action : SharedAction Process}
    (represents : Represents cfg s claims) (sole : Claims.Sole Prod.fst claims)
    (allowed : s.Undisturbed cfg action) (goes : s.Goes cfg action p next)
    (found : next.2.Found (cfg p) c) :
    Claims.Clear claims c ∧ ∀ q, q ≠ p → ¬ (s.proc q).phase.Books (cfg q) c := by
  cases goes with
  | serve begun => exact absurd (.inl found) (begin_books begun)
  | proceed =>
    rcases proceed_books (.inl found) with
      ⟨_, i, env, bookNum, trainFd, checks, names, available⟩ | ⟨stores, _⟩
    · have ready := represents.ready sole p
      have others : s.Checks cfg p (s.proc p).phase := allowed
      rw [checks] at ready others
      have others := others c names
      obtain ⟨quiet, c', serves⟩ := ready.stands.fits
      obtain rfl : c = c' := Names.unique names ⟨serves.train, serves.index⟩
      have zero := World.cell_of_checkCurr serves.on serves.index available _ (ready.stored c)
      refine ⟨sole.clear (markByte_injective zero) fun q writes => ?_, others⟩
      by_cases same : q = p
      · subst same
        rw [quiet] at writes
        cases writes
      · have fits := (represents.stands q).fits
        rw [writes] at fits
        exact others q same (.inr (fits.writes.2 rfl))
    · exact absurd stores found.not_stores

/-- An undisturbed step keeps the seats that are being booked alone. -/
theorem Shared.Alone.put {next : World × Phase} {action : SharedAction Process}
    {claims' : Claims.State Process (Process × Nat) Cell} (alone : s.Alone cfg claims)
    (represents : Represents cfg s claims) (sole : Claims.Sole Prod.fst claims)
    (allowed : s.Undisturbed cfg action) (goes : s.Goes cfg action p next)
    (advance : Advance (cfg p) p claims next claims') : (s.put cfg p next).Alone cfg claims' := by
  have own : ∀ {c}, next.2.Books (cfg p) c →
      (∀ q, q ≠ p → ¬ (s.proc q).phase.Books (cfg q) c) ∧
        (next.2.Found (cfg p) c → Claims.Clear claims c) := by
    intro c books
    by_cases found : next.2.Found (cfg p) c
    · have clear := Shared.Alone.found represents sole allowed goes found
      exact ⟨clear.2, fun _ => clear.1⟩
    · cases goes with
      | serve begun => exact absurd books (begin_books begun)
      | proceed =>
        obtain ⟨here, _⟩ | ⟨_, before⟩ := proceed_books books
        · exact absurd here found
        · exact ⟨fun q other taken => other (alone.single q p c taken (.inl before)),
            fun here => absurd here found⟩
  have claimed : ∀ {c}, claims'.pending p = some (c, .claimed) → next.2.Stores (cfg p) c := by
    intro c writes
    have fits := advance.ready.stands.fits
    rw [writes] at fits
    exact fits.writes.2 rfl
  have here : ((s.put cfg p next).proc p).phase = next.2 := by simp [Shared.put]
  have there : ∀ q, q ≠ p → ((s.put cfg p next).proc q).phase = (s.proc q).phase := by
    intro q other
    simp [Shared.put, other]
  constructor
  · intro q c found
    by_cases same : q = p
    · subst same
      rw [here] at found
      rcases advance.clear c ((own (.inl found)).2 found) with clear | writes
      · exact clear
      · exact absurd (claimed writes) found.not_stores
    · rw [there q same] at found
      rcases advance.clear c (alone.clear q c found) with clear | writes
      · exact clear
      · exact absurd (.inl found) ((own (.inr (claimed writes))).1 q same)
  · intro q r c books books'
    by_cases first : q = p <;> by_cases second : r = p
    · exact first.trans second.symm
    · subst first
      rw [here] at books
      rw [there r second] at books'
      exact absurd books' ((own books).1 r second)
    · subst second
      rw [there q first] at books
      rw [here] at books'
      exact absurd books ((own books').1 q first)
    · rw [there q first] at books
      rw [there r second] at books'
      exact alone.single q r c books books'

end

section

variable {Process : Type} {cfg : Process → Config} {heap : Process → Nat → List Char}
  {disk : Fin TRAIN_NUM → List Char} {s : Shared Process}

/-- At first no process books a seat. -/
theorem start_alone (claims : Claims.State Process (Process × Nat) Cell) :
    (Shared.start cfg heap disk).Alone cfg claims where
  clear _ _ found := False.elim found
  single _ _ _ books := books.elim False.elim False.elim

variable [DecidableEq Process]

theorem alone_reached (unlocked : Unlocked disk)
    (reached : (sharedMachine cfg heap disk).Reach (Shared.Undisturbed cfg) s) :
    ∃ claims, Represents cfg s claims ∧ Claims.Sole Prod.fst claims ∧ s.Alone cfg claims := by
  apply reached.invariant
    (fun s => ∃ claims, Represents cfg s claims ∧ Claims.Sole Prod.fst claims ∧ s.Alone cfg claims)
  · rintro s rfl
    obtain ⟨claims, represents, sole⟩ := start_represents unlocked
    exact ⟨claims, represents, sole, start_alone claims⟩
  · rintro s action t _ ⟨claims, represents, sole, alone⟩ allowed transition
    have takes := alone.takesUnclaimed represents allowed
    obtain ⟨p, next, goes, rfl, claims', advance⟩ := represents.advance sole takes transition
    exact ⟨claims', represents.put advance, advance.ready.sole,
      alone.put represents sole allowed goes advance⟩

/-- An undisturbed run takes every seat while it is unclaimed. -/
theorem takesUnclaimed_of_undisturbed (unlocked : Unlocked disk)
    (reached : (sharedMachine cfg heap disk).Reach (Shared.Undisturbed cfg) s) :
    (sharedMachine cfg heap disk).Reach (Shared.TakesUnclaimed cfg) s := by
  induction reached with
  | initial valid => exact .initial valid
  | step prior allowed transition taken =>
    obtain ⟨claims, represents, _, alone⟩ := alone_reached unlocked prior
    exact taken.step (alone.takesUnclaimed represents allowed) transition

end

-- The second process may check the seat as soon as the first one has stored its `'2'`.
example : (twoServers.exec (fun s action => s.Undisturbed (fun _ => smallConfig) action) twoStart
    (selects true ++ selects false ++ [.serve true (sends 9 "3"), .serve false (sends 9 "3"),
      .proceed true, .proceed true, .proceed true, .proceed false])).isSome = true ∧
    (twoServers.exec (fun s action => s.Undisturbed (fun _ => smallConfig) action) twoStart
      (selects true ++ selects false ++ [.serve true (sends 9 "3"), .serve false (sends 9 "3"),
        .proceed true, .proceed false])).isSome = false := by
  decide +kernel

end NTUSP.Server
