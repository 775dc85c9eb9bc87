import NTUSP.Server.Seats

/-!
# Locks without a holder

`free_record` forgets the seats of a connection and leaves their bytes alone. So the seats
that are `'2'` have a holder as long as no connection ends with a seat in `CHOSEN`, and the
first end of a connection that has one breaks this.
-/

namespace NTUSP.Server

open NTUSP.Library CString

namespace Tables

/-- Every locked seat is `CHOSEN` in the record of a live connection. -/
def NoOrphan (cfg : Config) (t : Tables) : Prop :=
  ∀ j k, k < SEAT_NUM → t.seatByte cfg j k = some '2' →
    ∃ i, t.Live cfg i ∧ t.On cfg i j ∧ (t.recordP i).seatStat k = .CHOSEN

/-- From `t` to `u` the chosen seats of connection `i` are given back and the paid ones kept. -/
def Released (cfg : Config) (i : Nat) (t u : Tables) : Prop :=
  ∀ j k, k < SEAT_NUM → t.On cfg i j →
    ((t.recordP i).seatStat k = .CHOSEN → u.seatByte cfg j k = some '0') ∧
      ((t.recordP i).seatStat k = .PAID → u.seatByte cfg j k = some '1')

/-- The connection holds no seat in `CHOSEN`. -/
def Unlocking (t : Tables) (i : Nat) : Prop :=
  ∀ k, k < SEAT_NUM → (t.recordP i).seatStat k ≠ .CHOSEN

/-- A connection that the action ends holds no seat in `CHOSEN`. -/
def EndsUnlocked (t : Tables) (action : Action) : Prop :=
  ∀ i ∈ t.ending action, t.Unlocking i

instance (t : Tables) (i : Nat) : Decidable (t.Unlocking i) := by
  unfold Unlocking
  infer_instance

instance (t : Tables) (action : Action) : Decidable (t.EndsUnlocked action) := by
  unfold EndsUnlocked
  infer_instance

variable {cfg : Config} {t u : Tables} {action : Action} {i k : Nat} {j : Fin TRAIN_NUM}
  {seat : Seat} {change : Int}

theorem closeConn_on {i' : Nat} (other : i' ≠ i) :
    (t.closeConn i).On cfg i' j ↔ t.On cfg i' j := by
  simp [On, closeConn, setRequest, setRecord, other]

theorem closeConn_seatStat {i' : Nat} (held : ((t.closeConn i).recordP i').seatStat k = .CHOSEN) :
    i' ≠ i ∧ (t.recordP i').seatStat k = .CHOSEN := by
  by_cases same : i' = i
  · simp [closeConn, setRequest, setRecord, same, initRecord] at held
  · simp only [closeConn, setRequest, setRecord, ne_eq, same, not_false_eq_true,
      Function.update_of_ne] at held
    exact ⟨same, held⟩

theorem live_acceptConn {i' : Nat} (free : t.Free cfg i) (live : t.Live cfg i') :
    (t.acceptConn i).Live cfg i' := by
  have other : i' ≠ i := by
    rintro rfl
    exact live.2.1 free.2.1
  simpa [Live, acceptConn, setRequest, other] using live

namespace NoOrphan

/-- Only who is connected, the records and the files matter. -/
theorem of_same (kept : t.NoOrphan cfg) (live : ∀ i, t.Live cfg i → u.Live cfg i)
    (records : u.recordP = t.recordP) (files : u.files = t.files) : u.NoOrphan cfg := by
  intro j k bound locked
  have before : t.seatByte cfg j k = some '2' := by
    unfold seatByte at locked ⊢
    rwa [files] at locked
  obtain ⟨i, connected, on, chosen⟩ := kept j k bound before
  refine ⟨i, live i connected, ?_, ?_⟩
  · unfold On at on ⊢
    rwa [records]
  · rwa [records]

/-- A seat changes in the record of its holder and in the file alike. -/
theorem mark (kept : t.NoOrphan cfg) (seated : t.Seated cfg) (seat : Seat) (change : Int)
    (live : t.Live cfg i) (record : t.On cfg i j) (bound : k < SEAT_NUM) :
    (t.mark i k seat change (cfg.trains j) seat.byte).NoOrphan cfg := by
  obtain ⟨old, known⟩ := seated.readable j k bound
  intro j' k' bound' locked
  rw [mark_seatByte known] at locked
  by_cases here : j' = j ∧ k' = k
  · obtain ⟨rfl, rfl⟩ := here
    rw [if_pos ⟨rfl, rfl⟩] at locked
    have chosen : seat = .CHOSEN := by
      cases seat with
      | UNKNOWN => cases locked
      | CHOSEN => rfl
      | PAID => cases locked
    refine ⟨i, live, (mark_on i j' _ _).mpr record, ?_⟩
    rw [mark_seatStat, if_pos ⟨rfl, rfl⟩]
    exact chosen
  · rw [if_neg here] at locked
    obtain ⟨i', connected, on, chosen⟩ := kept j' k' bound' locked
    refine ⟨i', connected, (mark_on i' j' _ _).mpr on, ?_⟩
    have elsewhere : ¬ (i' = i ∧ k' = k) := by
      rintro ⟨rfl, rfl⟩
      exact here ⟨cfg.distinct (Int.ofNat.inj (on.symm.trans record)), rfl⟩
    rw [mark_seatStat, if_neg elsewhere]
    exact chosen

theorem effect (kept : t.NoOrphan cfg) (sound : t.Sound cfg) (seated : t.Seated cfg)
    (effect : Effect cfg t u) : u.NoOrphan cfg := by
  cases effect with
  | again booked => exact kept.of_same (fun _ => live_setStatus.mpr) rfl rfl
  | bind shift line looked room =>
    rename_i i j
    have empty : t.recordP i = initRecord := sound.fresh i (by simp [shift])
    intro j' k bound locked
    obtain ⟨i', connected, on, chosen⟩ := kept j' k bound locked
    have other : i' ≠ i := by
      rintro rfl
      simp [empty, initRecord] at chosen
    have same : (t.bind i (atoi (t.requestP i).buf) (cfg.trains j)).recordP i' = t.recordP i' := by
      simp [Tables.bind, setStatus, setRequest, setRecord, other]
    refine ⟨i', live_setStatus.mpr connected, ?_, ?_⟩
    · unfold On at on ⊢
      rwa [same]
    · rwa [same]
  | choose seat record bound other available =>
    exact kept.mark seated .CHOSEN 1 (sound.live_of_seat (.inl seat)) record bound
  | cancel seat record bound chosen =>
    exact kept.mark seated .UNKNOWN (-1) (sound.live_of_seat (.inl seat)) record bound
  | pay seat record bound chosen =>
    exact (kept.mark seated .PAID (-1) (sound.live_of_seat seat) record
      bound).of_same (fun _ => live_setStatus.mpr) rfl rfl

theorem effects (kept : t.NoOrphan cfg) (sound : t.Sound cfg) (seated : t.Seated cfg)
    (effects : Effects cfg t u) : u.NoOrphan cfg := by
  suffices all : u.Sound cfg ∧ u.Seated cfg ∧ u.NoOrphan cfg from all.2.2
  induction effects with
  | refl => exact ⟨sound, seated, kept⟩
  | tail _ last ih =>
    obtain ⟨sound, seated, kept⟩ := ih
    exact ⟨sound.effect last, seated.effect sound last, kept.effect sound seated last⟩

/-- The end of a connection keeps the property exactly if it holds no chosen seat. -/
theorem closeConn_iff (kept : t.NoOrphan cfg) (sound : t.Sound cfg) (seated : t.Seated cfg) :
    (t.closeConn i).NoOrphan cfg ↔ t.Unlocking i := by
  constructor
  · intro after k bound chosen
    obtain ⟨j, record, locked⟩ := seated.locked_of_chosen sound bound chosen
    obtain ⟨i', _, on, held⟩ := after j k bound locked
    obtain ⟨other, held⟩ := closeConn_seatStat held
    rw [closeConn_on other] at on
    have unknown := seated.others_of_chosen bound record chosen i' other on
    rw [held] at unknown
    cases unknown
  · intro unlocking j k bound locked
    obtain ⟨i', live, on, chosen⟩ := kept j k bound locked
    have other : i' ≠ i := by
      rintro rfl
      exact unlocking k bound chosen
    refine ⟨i', ?_, (closeConn_on other).mpr on, ?_⟩
    · simpa [Live, closeConn, setRequest, setRecord, other] using live
    · simpa [closeConn, setRequest, setRecord, other] using chosen

theorem outcome_iff (kept : t.NoOrphan cfg) (sound : t.Sound cfg) (seated : t.Seated cfg)
    (outcome : Outcome cfg t action u) : u.NoOrphan cfg ↔ t.EndsUnlocked action := by
  cases outcome with
  | accepted free continues =>
    refine iff_of_true ?_ (by simp [EndsUnlocked, continues])
    exact kept.of_same (fun _ => live_acceptConn free) rfl rfl
  | ended live ends =>
    rw [kept.closeConn_iff sound seated]
    simp [EndsUnlocked, ends]
  | failed live bound unreadable => exact absurd unreadable (seated.not_unreadable bound)
  | served line continues effects =>
    refine iff_of_true ?_ (by simp [EndsUnlocked, continues])
    rename_i i text
    have stored : (t.store i text).NoOrphan cfg := kept.of_same (fun _ => live_store.mpr) rfl rfl
    exact stored.effects (sound.store _ _) (seated.of_same rfl rfl) effects

end NoOrphan

/-- The end of connection `i` leaves the train files alone, so only a connection without a
chosen seat gives its seats back. -/
theorem released_iff (sound : t.Sound cfg) (seated : t.Seated cfg) (files : u.files = t.files) :
    t.Released cfg i u ↔ t.Unlocking i := by
  have same : ∀ j k, u.seatByte cfg j k = t.seatByte cfg j k := by
    intro j k
    unfold seatByte
    rw [files]
  constructor
  · intro released k bound chosen
    obtain ⟨j, record, locked⟩ := seated.locked_of_chosen sound bound chosen
    have free := (released j k bound record).1 chosen
    rw [same, locked] at free
    cases free
  · intro unlocking j k bound record
    refine ⟨fun chosen => absurd chosen (unlocking k bound), fun paid => ?_⟩
    have sold := seated.held i j k bound record (by simp [paid])
    rw [same, sold, paid]
    rfl

/-- An outcome that ends a connection leaves the train files alone. -/
theorem files_of_ending (outcome : Outcome cfg t action u)
    (ends : t.ending action = some i) : u.files = t.files := by
  cases outcome with
  | accepted free continues => rfl
  | ended live ends => rfl
  | failed live bound unreadable => rfl
  | served line continues effects =>
    rw [continues] at ends
    cases ends

end Tables

/-- A step within range that ends no connection with a chosen seat. -/
def unlocksBefore (w : World) (action : Action) : Prop :=
  seatsInRange w action ∧ w.EndsUnlocked action

instance (w : World) (action : Action) : Decidable (unlocksBefore w action) := by
  unfold unlocksBefore
  infer_instance

variable {cfg : Config} {heap : Nat → List Char} {disk : Fin TRAIN_NUM → List Char}

theorem noOrphan_reached (unlocked : Unlocked disk) {w : World}
    (reached : (machine cfg heap disk).Reach unlocksBefore w) : w.NoOrphan cfg := by
  apply reached.invariant (fun w => w.NoOrphan cfg)
  · rintro w rfl j k bound locked
    rw [initServer_seatByte] at locked
    rcases unlocked j k bound with free | sold
    · rw [free] at locked
      cases locked
    · rw [sold] at locked
      cases locked
  · intro w action t prior kept allowed transition
    have within := prior.mono fun _ _ allowed => allowed.1
    have sound := sound_reached within
    have outcome := World.step_outcome sound allowed.1.1 allowed.1.2 transition
    exact (kept.outcome_iff sound (seated_reached unlocked within) outcome).mpr allowed.2

/-- In a run where no connection ends with a chosen seat, every locked seat has a live holder.
From there the next step keeps this, and gives the seats of a connection it ends back,
exactly if it meets the condition too. -/
theorem no_orphan_iff_endsUnlocked (unlocked : Unlocked disk) {w : World}
    (reached : (machine cfg heap disk).Reach unlocksBefore w) :
    w.NoOrphan cfg ∧ ∀ action t, seatsInRange w action → w.step cfg action = some t →
      (t.NoOrphan cfg ↔ w.EndsUnlocked action) ∧
        ((∀ i ∈ w.ending action, w.Released cfg i t.toTables) ↔ w.EndsUnlocked action) := by
  have kept := noOrphan_reached unlocked reached
  refine ⟨kept, fun action t within transition => ?_⟩
  have prior := reached.mono fun _ _ allowed => allowed.1
  have sound := sound_reached prior
  have seated := seated_reached unlocked prior
  have outcome := World.step_outcome sound within.1 within.2 transition
  refine ⟨kept.outcome_iff sound seated outcome, forall₂_congr fun i ends => ?_⟩
  exact Tables.released_iff sound seated (Tables.files_of_ending outcome ends)

/-- A client pays for its seat and exits. -/
theorem no_orphan_paid_exit :
    ∃ w, smallServer.Reach unlocksBefore w ∧
      w.seatByte smallConfig ⟨0, by decide⟩ 2 = some '1' ∧ w.NoOrphan smallConfig := by
  have ran : (smallServer.exec (fun w action => unlocksBefore w action) smallStart
      [.accept 9, sends 9 "902001", sends 9 "3", sends 9 "pay", sends 9 "exit"]).map
          (fun w => w.seatByte smallConfig ⟨0, by decide⟩ 2) = some (some '1') := by
    decide +kernel
  obtain ⟨w, reached, sold⟩ := Machine.Reach.of_ran rfl ran
  exact ⟨w, reached, sold, (no_orphan_iff_endsUnlocked freeTrain_unlocked reached).1⟩

/-- A client takes seat 3 and exits: the seat stays locked. -/
theorem orphan_reachable :
    ∃ w, smallServer.Reach withinBounds w ∧ ¬ w.NoOrphan smallConfig := by
  have ran : (smallServer.exec (fun w action => withinBounds w action) smallStart
      [.accept 9, sends 9 "902001", sends 9 "3", sends 9 "exit"]).map
          (fun w => (w.seatByte smallConfig ⟨0, by decide⟩ 2,
            decide (∀ i : Nat, i < 16 → (w.recordP i).seatStat 2 ≠ .CHOSEN))) =
      some (some '2', true) := by
    decide +kernel
  obtain ⟨w, reached, result⟩ := Machine.Reach.of_ran rfl ran
  obtain ⟨locked, nobody⟩ := Prod.mk.inj result
  refine ⟨w, reached, fun kept => ?_⟩
  obtain ⟨i, live, _, chosen⟩ := kept _ 2 (by decide) locked
  exact of_decide_eq_true nobody i live.1 chosen

end NTUSP.Server
