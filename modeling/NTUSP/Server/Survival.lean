import NTUSP.Server.Seats

/-!
# What a line can do to the process

The value of a seat line is used as an index before it is looked at, and so is the train
computed from the buffer of the connection accepted last. A line is harmless exactly if
both are in range.
-/

namespace NTUSP.Server

open NTUSP.Library CString

/-- The access stays inside the arrays and the train files. -/
def Access.Ok : Access → Prop
  | .train index => 0 ≤ index ∧ index < TRAIN_NUM
  | .seat index => 0 ≤ index ∧ index < SEAT_NUM
  | .seek _ offset => 0 ≤ offset

theorem Access.Fits.ok {train : Int} {access : Access} (fits : access.Fits train) : access.Ok := by
  cases access with
  | train index => exact fits.2
  | seat index => exact fits
  | seek fd offset => exact fits

namespace World

/-- The process used no index or position out of range and did not end by `ERR_EXIT`. -/
structure Survives (w : World) : Prop where
  accesses : ∀ access ∈ w.trace, access.Ok
  running : w.halt ≠ some .errExit

variable {cfg : Config} {env : Env} {w t : World} {i : Nat} {action : Action}

theorem Survives.went {n : Int} (survives : w.Survives) (went : Went n w t) : t.Survives where
  accesses := by
    obtain ⟨more, grown, fits⟩ := went.trace
    intro access member
    rw [grown] at member
    rcases List.mem_append.mp member with old | new
    · exact survives.accesses access old
    · exact (fits access new).ok
  running := by
    rw [went.halt]
    exact survives.running

/-! ## The first access of a line -/

variable (cfg env w i)

theorem setSeatStat_grew (index : Int) (seat : Seat) : Grew w (w.setSeatStat cfg i index seat) := by
  unfold setSeatStat
  dsimp only
  split <;> exact log_grew w _

/-- A record entry and a cell are stored, whatever becomes of them. -/
theorem mark_grew (index trainFd change : Int) (seat : Seat) (c : Char) :
    Grew w
      (((w.setSeatStat cfg i index seat).addChosen i change).storeCell cfg trainFd index c) := by
  have stored := setSeatStat_grew cfg w i index seat
  exact stored.trans (storeCell_aside cfg (addChosen _ i change) trainFd index c).grew

theorem take_grew (bookNum trainFd : Int) : Grew w (w.take cfg i bookNum trainFd) := by
  have marked := mark_grew cfg w i (bookNum - 1) trainFd 1 .CHOSEN '2'
  unfold take
  dsimp only
  split
  · exact setSeatStat_grew cfg w i (bookNum - 1) .CHOSEN
  · split <;> exact marked

theorem cancel_grew (bookNum trainFd : Int) : Grew w (w.cancel cfg i bookNum trainFd) := by
  have marked := mark_grew cfg w i (bookNum - 1) trainFd (-1) .UNKNOWN '0'
  unfold cancel
  dsimp only
  split
  · exact setSeatStat_grew cfg w i (bookNum - 1) .UNKNOWN
  · split <;> exact marked

theorem choose_grew (bookNum trainFd : Int) : Grew w (w.choose cfg env i bookNum trainFd) := by
  obtain ⟨t, aside, taken | answered | closed⟩ := choose_cases cfg env w i bookNum trainFd
  · rw [taken]
    exact aside.grew.trans (take_grew cfg t i bookNum trainFd)
  · rw [answered]
    exact aside.grew
  · rw [closed]
    exact aside.grew

theorem addORcancel_trace (seatINP : Int) :
    (w.addORcancel cfg i seatINP).1.trace = w.trace ++ [.seat (seatINP - 1)] := by
  unfold addORcancel
  dsimp only
  split
  · rfl
  · split <;> rfl

/-- A seat command begins with the seat before its value. -/
theorem handleSeat_grew :
    Grew (w.log (.seat (atoi (w.requestP i).buf - 1))) (w.handleSeat cfg env i) := by
  have logged := addORcancel_trace cfg w i (atoi (w.requestP i).buf)
  unfold handleSeat
  dsimp only
  split
  · rename_i t found
    rw [found] at logged
    exact .of_same logged
  · rename_i t result found
    rw [found] at logged
    have first : Grew (w.log (.seat (atoi (w.requestP i).buf - 1))) t := .of_same logged
    split
    · split
      · exact first
      · exact first.trans (choose_grew cfg env t i _ _)
    · have again := addORcancel_trace cfg t i (atoi (w.requestP i).buf)
      split
      · rename_i t' found'
        rw [found'] at again
        exact first.trans ⟨_, again.symm⟩
      · rename_i t' result' found'
        rw [found'] at again
        have second : Grew t t' := ⟨_, again.symm⟩
        split
        · exact (first.trans second).trans (cancel_grew cfg t' i _ _)
        · exact first.trans second

variable {cfg env w i}

/-- A seat command out of range is an access out of range. -/
theorem not_survives_of_seat (line : w.SeatLine i)
    (outside : ¬ (1 ≤ atoi (w.requestP i).buf ∧ atoi (w.requestP i).buf ≤ SEAT_NUM)) :
    ¬ (w.handleLine cfg env i).Survives := by
  rw [handleLine_seatLine line]
  intro survives
  have first : Access.seat (atoi (w.requestP i).buf - 1) ∈ (w.handleSeat cfg env i).trace :=
    (handleSeat_grew cfg env w i).subset (List.mem_append_right _ (List.mem_singleton_self _))
  have inside : 0 ≤ atoi (w.requestP i).buf - 1 ∧ atoi (w.requestP i).buf - 1 < SEAT_NUM :=
    survives.accesses _ first
  omega

/-- A shift selection that looks up no train is an access out of range. -/
theorem not_survives_of_train (line : w.ShiftLine i)
    (outside : ¬ (0 ≤ w.readTrainNum ∧ w.readTrainNum < TRAIN_NUM)) :
    ¬ (w.handleLine cfg env i).Survives := by
  rw [handleLine_shiftLine line, handleShift_outside line.2 outside]
  intro survives
  exact outside (survives.accesses (.train w.readTrainNum)
    (List.mem_append_right _ (List.mem_singleton_self _)))

/-- A harmless step has its line in range. -/
theorem in_range_of_survives (transition : w.step cfg action = some t) (survives : t.Survives) :
    w.OnLine Tables.SeatInRange action ∧ w.OnLine Tables.TrainInRange action := by
  cases (step_cases transition).2 with
  | accept free received continues => simp [Tables.OnLine, received]
  | close live received ends => simp [Tables.OnLine, received]
  | line live received ends fine =>
    rename_i i text env
    unfold Tables.OnLine
    rw [received]
    simp only [Option.mem_some_iff, forall_eq']
    constructor
    · intro seat
      by_contra outside
      exact not_survives_of_seat (w := w.store i text) seat outside survives
    · intro shift
      by_contra outside
      exact not_survives_of_train (w := w.store i text) shift outside survives

end World

variable {cfg : Config} {heap : Nat → List Char} {disk : Fin TRAIN_NUM → List Char} {w : World}

theorem survives_reached (reached : (machine cfg heap disk).Reach withinBounds w) :
    w.Survives := by
  apply reached.invariant (fun w => w.Survives)
  · rintro w rfl
    exact ⟨fun _ member => (List.not_mem_nil member).elim, by simp [World.initServer]⟩
  · intro w action t prior survives allowed transition
    have sound := sound_reached (prior.mono fun _ _ allowed => allowed.1)
    obtain ⟨n, went⟩ := (World.step_ok sound allowed.1.1 allowed.1.2 transition).1 allowed.2
    exact survives.went went

/-- In a run whose lines are in range the process survives. From there the next step is
harmless exactly if its line is in range too. -/
theorem survives_iff_in_range (reached : (machine cfg heap disk).Reach withinBounds w) :
    w.Survives ∧ ∀ action t, action.CallsSucceed → w.step cfg action = some t →
      (t.Survives ↔ w.OnLine Tables.SeatInRange action ∧ w.OnLine Tables.TrainInRange action) := by
  have survives := survives_reached reached
  refine ⟨survives, fun action t succeeds transition => ⟨fun after => ?_, fun inside => ?_⟩⟩
  · exact World.in_range_of_survives transition after
  · have sound := sound_reached (reached.mono fun _ _ allowed => allowed.1)
    obtain ⟨n, went⟩ := (World.step_ok sound succeeds inside.1 transition).1 inside.2
    exact survives.went went

/-- A client takes seat 3 and gives it back. -/
theorem survives_take_cancel :
    ∃ w, smallServer.Reach withinBounds w ∧ (w.recordP 9).numOfChosenSeats = 0 ∧ w.Survives := by
  have ran : (smallServer.exec (fun w action => withinBounds w action) smallStart
      [.accept 9, sends 9 "902001", sends 9 "3", sends 9 "3"]).map
          (fun w => (w.recordP 9).numOfChosenSeats) = some 0 := by
    decide +kernel
  obtain ⟨w, reached, none⟩ := Machine.Reach.of_ran rfl ran
  exact ⟨w, reached, none, (survives_iff_in_range reached).1⟩

/-- A client with one chosen seat sends `0`: `seat_stat[-1]` is `num_of_chosen_seats`, which
is 1 and reads as `CHOSEN`, and the cancellation seeks to -2 and ends the process. -/
theorem err_exit_reachable :
    ∃ w, smallServer.Reach (fun _ action => action.CallsSucceed) w ∧
      Access.seat (-1) ∈ w.trace ∧ Access.seek 3 (-2) ∈ w.trace ∧ w.halt = some .errExit ∧
      ¬ w.Survives := by
  have ran : (smallServer.exec (fun _ action => action.CallsSucceed) smallStart
      [.accept 9, sends 9 "902001", sends 9 "3", sends 9 "0"]).map
          (fun w => (decide (Access.seat (-1) ∈ w.trace), decide (Access.seek 3 (-2) ∈ w.trace),
            w.halt)) = some (true, true, some .errExit) := by
    decide +kernel
  obtain ⟨w, reached, result⟩ := Machine.Reach.of_ran rfl ran
  obtain ⟨index, rest⟩ := Prod.mk.inj result
  obtain ⟨position, ended⟩ := Prod.mk.inj rest
  exact ⟨w, reached, of_decide_eq_true index, of_decide_eq_true position, ended,
    fun survives => survives.running ended⟩

end NTUSP.Server
