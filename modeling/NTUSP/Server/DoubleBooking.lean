import NTUSP.Server.Parts

/-!
# Booking across processes

`checkCurr` and the write of a `'2'` are two sections, and a record takes the seat between
them without looking at the file again. So two processes may both find a seat available and
both take it. If every seat is still unclaimed by the other processes when a record takes it,
no two processes hold a seat, and a sold seat is never written again.
-/

namespace NTUSP.Server

open NTUSP.Library CString

/-- The line and the train of a request name the cell. -/
def Names (cfg : Config) (c : Cell) (bookNum trainFd : Int) : Prop :=
  trainFd = cfg.trains c.1 ∧ bookNum - 1 = (c.2 : Nat)

instance (cfg : Config) (c : Cell) (bookNum trainFd : Int) :
    Decidable (Names cfg c bookNum trainFd) := by
  unfold Names
  infer_instance

/-- A line and a train name one cell. -/
theorem Names.unique {cfg : Config} {c c' : Cell} {bookNum trainFd : Int}
    (names : Names cfg c bookNum trainFd) (names' : Names cfg c' bookNum trainFd) : c = c' := by
  have train : c.1 = c'.1 := cfg.distinct (Int.ofNat.inj (names.1.symm.trans names'.1))
  have first := names.2
  have second := names'.2
  exact Prod.ext train (Fin.ext (by omega))

namespace Phase

/-- The process is about to store `'0'` for seat `k` of train `j`. -/
def Cancels (cfg : Config) (j : Fin TRAIN_NUM) (k : Nat) : Phase → Prop
  | .cancelStore _ bookNum trainFd => trainFd = cfg.trains j ∧ bookNum - 1 = k
  | _ => False

instance (cfg : Config) (j : Fin TRAIN_NUM) (k : Nat) :
    (phase : Phase) → Decidable (phase.Cancels cfg j k)
  | .cancelStore _ bookNum trainFd =>
      inferInstanceAs (Decidable (trainFd = cfg.trains j ∧ bookNum - 1 = k))
  | .idle | .occupied .. | .checkCurr .. | .take .. | .takeStore .. | .pay .. | .payStore .. =>
      isFalse id

/-- The record has taken the seat, and the process stores the `'2'` next. -/
def Stores (cfg : Config) (c : Cell) : Phase → Prop
  | .takeStore _ bookNum trainFd => Names cfg c bookNum trainFd
  | _ => False

end Phase

namespace Shared

variable {Process : Type}

/-- No other process holds the seat or is cancelling it, and it is not sold. -/
def Unclaimed (cfg : Process → Config) (s : Shared Process) (p : Process) (j : Fin TRAIN_NUM)
    (k : Nat) : Prop :=
  (s.disk j)[2 * k]? ≠ some '1' ∧ ∀ q, q ≠ p → ¬ (s.proc q).phase.Cancels (cfg q) j k ∧
    ∀ i, i < (cfg q).maxfd → ((s.proc q).world.recordP i).trainFd = (cfg q).trains j →
      ((s.proc q).world.recordP i).seatStat k = .UNKNOWN

/-- Seat lines are in range. -/
def InRange (cfg : Process → Config) (s : Shared Process) : SharedAction Process → Prop
  | .serve p action => inRange (s.mounted cfg p) action
  | .proceed _ => True

/-- If the record of a connection takes a seat next, the seat is unclaimed. -/
def Takes (cfg : Process → Config) (s : Shared Process) (p : Process) : Phase → Prop
  | .take _ bookNum trainFd =>
      ∀ (j : Fin TRAIN_NUM) (k : Nat), k < SEAT_NUM → trainFd = (cfg p).trains j →
        bookNum - 1 = k → s.Unclaimed cfg p j k
  | _ => True

/-- Seat lines are in range, and a seat that `checkCurr` has found available is still unclaimed
when the record takes it. -/
def TakesUnclaimed (cfg : Process → Config) (s : Shared Process) : SharedAction Process → Prop
  | .serve p action => inRange (s.mounted cfg p) action
  | .proceed p => s.Takes cfg p (s.proc p).phase

/-- No two processes hold one seat. -/
def Exclusive (cfg : Process → Config) (s : Shared Process) : Prop :=
  ∀ p q i i' j k, p ≠ q → k < SEAT_NUM → (s.proc p).world.On (cfg p) i j →
    (s.proc q).world.On (cfg q) i' j →
    ((s.proc p).world.recordP i).seatStat k = .CHOSEN ∨
      ((s.proc p).world.recordP i).seatStat k = .PAID →
    ((s.proc q).world.recordP i').seatStat k = .CHOSEN ∨
      ((s.proc q).world.recordP i').seatStat k = .PAID → False

section

variable [Fintype Process] [DecidableEq Process]

instance (cfg : Process → Config) (s : Shared Process) (p : Process) (j : Fin TRAIN_NUM) (k : Nat) :
    Decidable (s.Unclaimed cfg p j k) := by
  unfold Unclaimed
  infer_instance

instance (cfg : Process → Config) (s : Shared Process) (p : Process) :
    (phase : Phase) → Decidable (s.Takes cfg p phase)
  | .take _ bookNum trainFd =>
      inferInstanceAs (Decidable (∀ (j : Fin TRAIN_NUM) (k : Nat), k < SEAT_NUM →
        trainFd = (cfg p).trains j → bookNum - 1 = k → s.Unclaimed cfg p j k))
  | .idle | .occupied .. | .checkCurr .. | .takeStore .. | .cancelStore .. | .pay .. |
    .payStore .. => isTrue trivial

instance (cfg : Process → Config) (s : Shared Process) :
    (action : SharedAction Process) → Decidable (s.InRange cfg action)
  | .serve p action => inferInstanceAs (Decidable (inRange (s.mounted cfg p) action))
  | .proceed _ => isTrue trivial

instance (cfg : Process → Config) (s : Shared Process) :
    (action : SharedAction Process) → Decidable (s.TakesUnclaimed cfg action)
  | .serve p action => inferInstanceAs (Decidable (inRange (s.mounted cfg p) action))
  | .proceed p => inferInstanceAs (Decidable (s.Takes cfg p (s.proc p).phase))

end
end Shared

section

variable {Process : Type} {cfg : Process → Config} {p : Process}
  {claims : Claims.State Process (Process × Nat) Cell} {s t : Shared Process}

/-! ## Any order of the sections -/

/-- What is on disk is what the process finds. -/
theorem mounted_disk (s : Shared Process) (p : Process) :
    (s.mounted cfg p).disk (cfg p) = s.disk := by
  funext j
  simp [World.disk, Shared.mounted, World.mount, Config.trainOf_trains]

/-- A process stands with the disk mounted as it did before. -/
theorem Represents.ready (represents : Represents cfg s claims)
    (sole : Claims.Sole Prod.fst claims) (p : Process) :
    Ready (cfg p) p claims (s.mounted cfg p) (s.proc p).phase where
  sole := sole
  stored := by
    rw [mounted_disk]
    exact represents.stored
  stands := by
    obtain ⟨sound, running, on, off, fits⟩ := represents.stands p
    exact ⟨sound.of_slots rfl rfl fun j => Tables.settle_rest _ _, running, on, off,
      fits.of_slots rfl rfl⟩

/-- A train and a line name one seat. -/
theorem Serves.unique {cfg : Config} {w t : World} {i : Nat} {bookNum trainFd : Int} {c c' : Cell}
    (serves : Serves cfg w i bookNum trainFd c) (serves' : Serves cfg t i bookNum trainFd c') :
    c = c' :=
  Names.unique ⟨serves.train, serves.index⟩ ⟨serves'.train, serves'.index⟩

/-- Only a cancellation is about to write a free cell, and only a booking a claim. -/
theorem Phase.Fits.writes {cfg : Config} {w : World} {phase : Phase} {c : Cell} {m : Claims.Mark}
    (fits : phase.Fits cfg w (some (c, m))) :
    (m = .free → phase.Cancels cfg c.1 c.2) ∧ (m = .claimed → phase.Stores cfg c) := by
  cases phase with
  | cancelStore i bookNum trainFd =>
    obtain ⟨c', serves, here⟩ := fits
    obtain ⟨rfl, rfl⟩ := Prod.mk.inj (Option.some.inj here)
    exact ⟨fun _ => ⟨serves.train, serves.index⟩, nofun⟩
  | takeStore i bookNum trainFd =>
    obtain ⟨c', serves, here⟩ := fits
    obtain ⟨rfl, rfl⟩ := Prod.mk.inj (Option.some.inj here)
    exact ⟨nofun, fun _ => ⟨serves.train, serves.index⟩⟩
  | payStore i trainFd k =>
    obtain ⟨_, _, _, here⟩ := fits
    obtain ⟨_, rfl⟩ := Prod.mk.inj (Option.some.inj here)
    exact ⟨nofun, nofun⟩
  | idle => cases fits
  | occupied i env call fd => cases fits.1
  | checkCurr i env call bookNum trainFd => cases fits.1
  | take i bookNum trainFd => cases fits.1
  | pay i trainFd k => cases fits.1

/-- A seat that no other process claims. -/
theorem Represents.unclaimed (represents : Represents cfg s claims)
    (sole : Claims.Sole Prod.fst claims) {i : Nat} {bookNum trainFd : Int}
    (phase : (s.proc p).phase = .take i bookNum trainFd)
    (takes : s.Takes cfg p (.take i bookNum trainFd)) {c : Cell}
    (serves : Serves (cfg p) (s.mounted cfg p) i bookNum trainFd c) :
    (∀ o, claims.mark o c = .free) ∧ (∀ q m, claims.pending q ≠ some (c, m)) ∧
      claims.cell c ≠ .settled := by
  obtain ⟨unsold, others⟩ := takes c.1 c.2 c.2.isLt serves.train serves.index
  have own := (represents.stands p).fits
  rw [phase] at own
  obtain ⟨quiet, c', serves', unknown⟩ := own
  obtain rfl := serves'.unique serves
  have unmarked : ∀ o, claims.mark o c' = .free := by
    rintro ⟨q, i'⟩
    by_cases on : (s.proc q).world.On (cfg q) i' c'.1
    · rw [(represents.stands q).on i' c' on, Seat.mark_eq_free]
      by_cases same : q = p
      · subst same
        exact unknown i' on
      · by_contra held
        have used : (s.proc q).world.recordP i' ≠ initRecord := by
          intro fresh
          rw [fresh] at held
          exact held rfl
        have sound := (represents.stands q).sound
        have live := sound.live_of_seat (sound.status_of_record used)
        exact held ((others q same).2 i' live.1 on)
    · exact (represents.stands q).off i' c' on
  refine ⟨unmarked, fun q m writes => ?_, ?_⟩
  · by_cases same : q = p
    · subst same
      rw [quiet] at writes
      cases writes
    · have backed := sole.backed q c' m writes
      cases m with
      | free =>
        have fits := (represents.stands q).fits
        rw [writes] at fits
        exact (others q same).1 (fits.writes.1 rfl)
      | claimed =>
        obtain ⟨_, o, _, mark⟩ := backed
        rw [unmarked] at mark
        cases mark
      | settled =>
        obtain ⟨_, o, _, mark⟩ := backed
        rw [unmarked] at mark
        cases mark
  · intro settled
    have byte := represents.stored c'
    rw [settled] at byte
    exact unsold byte

variable [DecidableEq Process]

/-- Which process an action lets go on, and what it comes to. -/
inductive Shared.Goes (cfg : Process → Config) (s : Shared Process) :
    SharedAction Process → Process → World × Phase → Prop where
  | serve {p : Process} {action : Action} {next : World × Phase}
      (begun : (s.mounted cfg p).begin (cfg p) action = some next) :
      Goes cfg s (.serve p action) p next
  | proceed {p : Process} :
      Goes cfg s (.proceed p) p ((s.mounted cfg p).proceed (cfg p) (s.proc p).phase)

/-- The other processes stand where they were. -/
theorem Represents.put {next : World × Phase}
    {claims' : Claims.State Process (Process × Nat) Cell} (represents : Represents cfg s claims)
    (advance : Advance (cfg p) p claims next claims') :
    Represents cfg (s.put cfg p next) claims' where
  stored := advance.ready.stored
  stands q := by
    by_cases same : q = p
    · subst same
      simpa [Shared.put] using advance.ready.stands
    · have mark : (fun i => claims'.mark (q, i)) = fun i => claims.mark (q, i) :=
        funext fun i => advance.mark q i same
      rw [mark, advance.pending q same]
      simpa [Shared.put, same] using represents.stands q

/-- A step of any process advances it in the claims. -/
theorem Represents.advance {action : SharedAction Process} (represents : Represents cfg s claims)
    (sole : Claims.Sole Prod.fst claims) (allowed : s.TakesUnclaimed cfg action)
    (transition : s.step cfg action = some t) :
    ∃ p next, s.Goes cfg action p next ∧ t = s.put cfg p next ∧
      ∃ claims', Advance (cfg p) p claims next claims' := by
  cases action with
  | serve p action =>
    simp only [Shared.step] at transition
    split at transition
    · rename_i idle
      obtain ⟨next, begun, rfl⟩ := Option.map_eq_some_iff.mp transition
      have ready := represents.ready sole p
      rw [idle] at ready
      exact ⟨p, next, .serve begun, rfl, advance_begin ready allowed begun⟩
    · cases transition
  | proceed p =>
    simp only [Shared.step] at transition
    split at transition
    · cases transition
    · rename_i busy
      obtain rfl := Option.some.inj transition
      have ready := represents.ready sole p
      have takes : s.Takes cfg p (s.proc p).phase := allowed
      refine ⟨p, _, .proceed, rfl, ?_⟩
      generalize same : (s.proc p).phase = phase at ready busy takes ⊢
      cases phase with
      | idle => exact absurd rfl busy
      | occupied i env call fd => exact advance_occupied ready
      | checkCurr i env call bookNum trainFd => exact advance_checkCurr ready
      | take i bookNum trainFd =>
        exact advance_take ready fun c serves => represents.unclaimed sole same takes serves
      | takeStore i bookNum trainFd => exact advance_takeStore ready
      | cancelStore i bookNum trainFd => exact advance_cancelStore ready
      | pay i trainFd k => exact advance_pay ready
      | payStore i trainFd k => exact advance_payStore ready

/-- A step of any process, as a step of the claims. -/
theorem Represents.step {action : SharedAction Process} (represents : Represents cfg s claims)
    (sole : Claims.Sole Prod.fst claims) (allowed : s.TakesUnclaimed cfg action)
    (transition : s.step cfg action = some t) :
    ∃ claims', Represents cfg t claims' ∧ Claims.Sole Prod.fst claims' ∧
      ∀ c, claims.cell c = .settled → claims'.cell c = .settled := by
  obtain ⟨p, next, _, rfl, claims', advance⟩ := represents.advance sole allowed transition
  exact ⟨claims', represents.put advance, advance.ready.sole, advance.settled⟩

end

variable {Process : Type} {cfg : Process → Config}
  {heap : Process → Nat → List Char} {disk : Fin TRAIN_NUM → List Char} {s : Shared Process}

/-- At first nobody has a mark. -/
theorem start_represents (unlocked : Unlocked disk) :
    ∃ claims, Represents cfg (Shared.start cfg heap disk) claims ∧ Claims.Sole Prod.fst claims := by
  have bytes : ∀ c : Cell, ∃ m, (disk c.1)[2 * (c.2 : Nat)]? = some (markByte m) := by
    intro c
    rcases unlocked c.1 c.2 c.2.isLt with free | sold
    · exact ⟨.free, free⟩
    · exact ⟨.settled, sold⟩
  choose cell stored using bytes
  refine ⟨⟨cell, fun _ _ => .free, fun _ => none⟩, ⟨stored, fun p => ?_⟩, ?_⟩
  · exact ⟨World.initServer_sound (cfg p) (heap p) disk, fun _ => rfl, fun _ _ _ => rfl,
      fun _ _ _ => rfl, rfl⟩
  · exact ⟨fun _ _ _ mark => absurd rfl mark, fun _ _ mark => absurd rfl mark,
      fun _ _ _ writes => (by cases writes), fun _ _ _ _ _ writes => (by cases writes)⟩

/-- Two processes that hold one seat would both have a mark on its cell. -/
theorem Represents.exclusive {claims : Claims.State Process (Process × Nat) Cell}
    (represents : Represents cfg s claims) (sole : Claims.Sole Prod.fst claims) :
    s.Exclusive cfg := by
  intro p q i i' j k different bound on on' held held'
  let c : Cell := (j, ⟨k, bound⟩)
  have marked : ∀ seat : Seat, seat = .CHOSEN ∨ seat = .PAID → seat.mark ≠ .free := by
    rintro seat (rfl | rfl) <;> decide
  have mark : claims.mark (p, i) c ≠ .free := by
    rw [(represents.stands p).on i c on]
    exact marked _ held
  have mark' : claims.mark (q, i') c ≠ .free := by
    rw [(represents.stands q).on i' c on']
    exact marked _ held'
  exact different (congrArg Prod.fst (sole.alone (p, i) (q, i') c mark mark'))

variable [DecidableEq Process]

theorem represents_reached (unlocked : Unlocked disk)
    (reached : (sharedMachine cfg heap disk).Reach (Shared.TakesUnclaimed cfg) s) :
    ∃ claims, Represents cfg s claims ∧ Claims.Sole Prod.fst claims := by
  apply reached.invariant
    (fun s => ∃ claims, Represents cfg s claims ∧ Claims.Sole Prod.fst claims)
  · rintro s rfl
    exact start_represents unlocked
  · rintro s action t _ ⟨claims, represents, sole⟩ allowed transition
    obtain ⟨claims', represents', sole', _⟩ := represents.step sole allowed transition
    exact ⟨claims', represents', sole'⟩

/-- Booking across processes: if every seat is still unclaimed when a record takes it, no two
processes hold one seat in any state, and no step overwrites a sold seat. -/
theorem exclusive_of_takesUnclaimed (unlocked : Unlocked disk)
    (reached : (sharedMachine cfg heap disk).Reach (Shared.TakesUnclaimed cfg) s) :
    s.Exclusive cfg ∧ ∀ action t, s.TakesUnclaimed cfg action → s.step cfg action = some t →
      ∀ j k, k < SEAT_NUM → (s.disk j)[2 * k]? = some '1' → (t.disk j)[2 * k]? = some '1' := by
  obtain ⟨claims, represents, sole⟩ := represents_reached unlocked reached
  refine ⟨represents.exclusive sole, ?_⟩
  intro action t allowed transition j k bound sold
  obtain ⟨claims', represents', _, kept⟩ := represents.step sole allowed transition
  let c : Cell := (j, ⟨k, bound⟩)
  have settled : claims.cell c = .settled :=
    markByte_injective (Option.some.inj ((represents.stored c).symm.trans sold))
  have byte := represents'.stored c
  rwa [kept c settled] at byte

/-! ## Two servers -/

/-- Two servers with the descriptors of the small one. -/
def twoServers : Machine (Shared Bool) (SharedAction Bool) :=
  sharedMachine (fun _ => smallConfig) (fun _ _ => []) fun _ => freeTrain

def twoStart : Shared Bool := Shared.start (fun _ => smallConfig) (fun _ _ => []) fun _ => freeTrain

/-- A client of process `p` connects and selects the first train. -/
def selects (p : Bool) : List (SharedAction Bool) :=
  [.serve p (.accept 9), .serve p (sends 9 "902001"), .proceed p, .proceed p]

/-- Both processes serve one line for the same seat, one after the other: the second client finds
the seat locked, and the first one pays for it. -/
theorem exclusive_one_after_the_other :
    ∃ s, twoServers.Reach (Shared.TakesUnclaimed fun _ => smallConfig) s ∧
      (s.disk ⟨0, by decide⟩)[4]? = some '1' ∧ s.Exclusive fun _ => smallConfig := by
  have ran : (twoServers.exec
      (fun s action => s.TakesUnclaimed (fun _ => smallConfig) action) twoStart
      (selects true ++ selects false ++ [.serve true (sends 9 "3"), .proceed true, .proceed true,
        .proceed true, .serve false (sends 9 "3"), .proceed false, .proceed false, .proceed false,
        .serve true (sends 9 "pay")] ++ List.replicate 4 (.proceed true))).map
          (fun s => (s.disk ⟨0, by decide⟩)[4]?) = some (some '1') := by
    decide +kernel
  obtain ⟨s, reached, sold⟩ := Machine.Reach.of_ran rfl ran
  exact ⟨s, reached, sold, (exclusive_of_takesUnclaimed freeTrain_unlocked reached).1⟩

/-- Both processes find seat 3 available before either of them takes it. -/
theorem double_booking :
    ∃ s, twoServers.Reach (Shared.InRange fun _ => smallConfig) s ∧
      ¬ s.Exclusive fun _ => smallConfig := by
  have ran : (twoServers.exec (fun s action => s.InRange (fun _ => smallConfig) action) twoStart
      (selects true ++ selects false ++ [.serve true (sends 9 "3"), .serve false (sends 9 "3"),
        .proceed true, .proceed false, .proceed true, .proceed true, .proceed false,
        .proceed false])).map (fun s => (((s.proc true).world.recordP 9).trainFd,
          ((s.proc true).world.recordP 9).seatStat 2, ((s.proc false).world.recordP 9).trainFd,
          ((s.proc false).world.recordP 9).seatStat 2)) = some (3, .CHOSEN, 3, .CHOSEN) := by
    decide +kernel
  obtain ⟨s, reached, result⟩ := Machine.Reach.of_ran rfl ran
  simp only [Prod.mk.injEq] at result
  obtain ⟨on, first, on', second⟩ := result
  exact ⟨s, reached, fun exclusive => exclusive true false 9 9 ⟨0, by decide⟩ 2 (by decide)
    (by decide) on on' (.inl first) (.inl second)⟩

end NTUSP.Server
