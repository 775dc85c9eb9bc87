import NTUSP.Server.Effects

/-!
# Steps of the server within bounds

`Sound` says what the slots of the tables hold: a record is in use only behind a shift
selection, and then it names a train file. A step from a sound state whose seat line is in
range is an `accept`, the end of a connection, or a run of effects. It leads to a sound
state, and it ends the process only when the train it looks up does not exist.
-/

namespace NTUSP.Server

open NTUSP.Library CString

namespace Tables

/-- The line is a seat command. -/
def SeatLine (t : Tables) (i : Nat) : Prop :=
  (t.requestP i).status = .SEAT ∧ (t.requestP i).buf ≠ "exit".toList ∧
    (t.requestP i).buf ≠ "pay".toList

/-- The line selects a shift. -/
def ShiftLine (t : Tables) (i : Nat) : Prop :=
  (t.requestP i).status = .SHIFT ∧ (t.requestP i).buf ∈ shiftIds

/-- The line ends the connection: `exit`, or an operation that is invalid in its state. -/
def LineEnds (t : Tables) (i : Nat) : Prop :=
  (t.requestP i).buf = "exit".toList ∨
    ((t.requestP i).status = .SHIFT ∧ (t.requestP i).buf ∉ shiftIds) ∨
    ((t.requestP i).status = .BOOKED ∧ (t.requestP i).buf ≠ "seat".toList)

/-- The tables with the received line stored, and the connection it is from. -/
def received (t : Tables) : Action → Option (Tables × Nat)
  | .recv i chunk _ =>
      match handleRead chunk with
      | .line text => some (t.store i text, i)
      | _ => none
  | _ => none

end Tables

instance (t : Tables) (i : Nat) : Decidable (t.SeatLine i) := by
  unfold Tables.SeatLine
  infer_instance

instance (t : Tables) (i : Nat) : Decidable (t.ShiftLine i) := by
  unfold Tables.ShiftLine
  infer_instance

instance (t : Tables) (i : Nat) : Decidable (t.LineEnds i) := by
  unfold Tables.LineEnds
  infer_instance

namespace Tables

/-- The connection that the action ends by a timeout, an end of file or its line. -/
def ending (t : Tables) : Action → Option Nat
  | .accept _ => none
  | .timeout i => some i
  | .recv i chunk _ =>
      match handleRead chunk with
      | .eof => some i
      | .line text => if (t.store i text).LineEnds i then some i else none
      | .overrun => none

/-- If the action brings a line, `p` holds behind storing it. -/
def OnLine (t : Tables) (p : Tables → Nat → Prop) (action : Action) : Prop :=
  ∀ received ∈ t.received action, p received.1 received.2

instance (t : Tables) (p : Tables → Nat → Prop) [∀ u i, Decidable (p u i)] (action : Action) :
    Decidable (t.OnLine p action) :=
  inferInstanceAs (Decidable (∀ received ∈ t.received action, p received.1 received.2))

/-- A seat command names one of the seats. -/
def SeatInRange (u : Tables) (i : Nat) : Prop :=
  u.SeatLine i → 1 ≤ atoi (u.requestP i).buf ∧ atoi (u.requestP i).buf ≤ SEAT_NUM

/-- A seat command names one of the seats, or is no number. -/
def SeatOrNone (u : Tables) (i : Nat) : Prop :=
  u.SeatLine i → 0 ≤ atoi (u.requestP i).buf ∧ atoi (u.requestP i).buf ≤ SEAT_NUM

/-- A shift selection looks up one of the trains. -/
def TrainInRange (u : Tables) (i : Nat) : Prop :=
  u.ShiftLine i → 0 ≤ u.readTrainNum ∧ u.readTrainNum < TRAIN_NUM

instance (u : Tables) (i : Nat) : Decidable (u.SeatInRange i) := by
  unfold SeatInRange
  infer_instance

instance (u : Tables) (i : Nat) : Decidable (u.SeatOrNone i) := by
  unfold SeatOrNone
  infer_instance

instance (u : Tables) (i : Nat) : Decidable (u.TrainInRange i) := by
  unfold TrainInRange
  infer_instance

end Tables

/-- The calls of the step succeed on valid arguments. -/
def Action.CallsSucceed : Action → Prop
  | .recv _ _ env => env.Succeeds
  | _ => True

instance : (action : Action) → Decidable action.CallsSucceed
  | .accept _ => isTrue trivial
  | .timeout _ => isTrue trivial
  | .recv _ _ env => inferInstanceAs (Decidable env.Succeeds)

namespace Tables

/-- The connection of a stored line is still the same. -/
theorem live_store {cfg : Config} {t : Tables} {i k : Nat} {text : List Char} :
    (t.store i text).Live cfg k ↔ t.Live cfg k := by
  by_cases same : k = i <;> simp [store, setRequest, Live, same]

theorem live_setStatus {cfg : Config} {t : Tables} {i k : Nat} {status : Status} :
    (t.setStatus i status).Live cfg k ↔ t.Live cfg k := by
  by_cases same : k = i <;> simp [setStatus, setRequest, Live, same]

/-- What the slots of the tables hold between two steps. -/
structure Sound (cfg : Config) (t : Tables) : Prop where
  listen : (t.requestP cfg.listenFd).connFd ≠ -1
  live : ∀ i, (t.requestP i).status ≠ .INVALID ↔ t.Live cfg i
  bound : ∀ i, (t.requestP i).status = .SEAT ∨ (t.requestP i).status = .BOOKED →
    ∃ j, (t.recordP i).trainFd = cfg.trains j
  fresh : ∀ i, ¬ ((t.requestP i).status = .SEAT ∨ (t.requestP i).status = .BOOKED) →
    t.recordP i = initRecord
  rest : ∀ j, (t.files (cfg.trains j)).Rest

namespace Sound

variable {cfg : Config} {t u : Tables} {i : Nat}

/-- A record with a train in it belongs to a connection in `SEAT` or `BOOKED`. -/
theorem status_of_record (sound : t.Sound cfg) (used : t.recordP i ≠ initRecord) :
    (t.requestP i).status = .SEAT ∨ (t.requestP i).status = .BOOKED := by
  by_contra idle
  exact used (sound.fresh i idle)

/-- A connection in `SEAT` or `BOOKED` is live. -/
theorem live_of_seat (sound : t.Sound cfg)
    (status : (t.requestP i).status = .SEAT ∨ (t.requestP i).status = .BOOKED) : t.Live cfg i := by
  apply (sound.live i).mp
  rcases status with seat | booked
  · simp [seat]
  · simp [booked]

/-- Only slot `i` changes, and what it holds then is in order. -/
theorem slot (sound : t.Sound cfg) (i : Nat) (other : i ≠ cfg.listenFd)
    (others : ∀ k, k ≠ i → u.requestP k = t.requestP k ∧ u.recordP k = t.recordP k)
    (live : (u.requestP i).status ≠ .INVALID ↔ u.Live cfg i)
    (bound : (u.requestP i).status = .SEAT ∨ (u.requestP i).status = .BOOKED →
      ∃ j, (u.recordP i).trainFd = cfg.trains j)
    (fresh : ¬ ((u.requestP i).status = .SEAT ∨ (u.requestP i).status = .BOOKED) →
      u.recordP i = initRecord)
    (rest : ∀ j, (u.files (cfg.trains j)).Rest) : u.Sound cfg where
  listen := by
    rw [(others _ other.symm).1]
    exact sound.listen
  live k := by
    by_cases same : k = i
    · rw [same]
      exact live
    · unfold Live
      rw [(others k same).1]
      exact sound.live k
  bound k status := by
    by_cases same : k = i
    · subst same
      exact bound status
    · rw [(others k same).1] at status
      rw [(others k same).2]
      exact sound.bound k status
  fresh k idle := by
    by_cases same : k = i
    · subst same
      exact fresh idle
    · rw [(others k same).1] at idle
      rw [(others k same).2]
      exact sound.fresh k idle
  rest := rest

/-- Connection `i` goes on in `SEAT` or `BOOKED` with a train, and the others stay. -/
theorem serve (sound : t.Sound cfg) (i : Nat) (conn : (u.requestP i).connFd = (t.requestP i).connFd)
    (others : ∀ k, k ≠ i → u.requestP k = t.requestP k ∧ u.recordP k = t.recordP k)
    (before : (t.requestP i).status ≠ .INVALID)
    (after : (u.requestP i).status = .SEAT ∨ (u.requestP i).status = .BOOKED)
    (record : ∃ j, (u.recordP i).trainFd = cfg.trains j)
    (rest : ∀ j, (u.files (cfg.trains j)).Rest) : u.Sound cfg := by
  have live := (sound.live i).mp before
  apply sound.slot i live.2.2 others
  · have valid : (u.requestP i).status ≠ .INVALID := by
      rcases after with seat | booked
      · simp [seat]
      · simp [booked]
    unfold Live at live ⊢
    rw [conn]
    exact iff_of_true valid live
  · exact fun _ => record
  · exact fun idle => absurd after idle
  · exact rest

theorem store (sound : t.Sound cfg) (i : Nat) (text : List Char) : (t.store i text).Sound cfg := by
  have conn : ∀ k, ((t.store i text).requestP k).connFd = (t.requestP k).connFd := by
    intro k
    by_cases same : k = i <;> simp [Tables.store, setRequest, same]
  have status : ∀ k, ((t.store i text).requestP k).status = (t.requestP k).status := by
    intro k
    by_cases same : k = i <;> simp [Tables.store, setRequest, same]
  refine ⟨?_, fun k => ?_, fun k => ?_, fun k => ?_, sound.rest⟩
  · rw [conn]
    exact sound.listen
  · unfold Live
    rw [conn, status]
    exact sound.live k
  · rw [status]
    exact sound.bound k
  · rw [status]
    exact sound.fresh k

theorem closeConn (sound : t.Sound cfg) (live : t.Live cfg i) : (t.closeConn i).Sound cfg := by
  apply sound.slot i live.2.2
  · intro k other
    simp [Tables.closeConn, setRequest, setRecord, other]
  · simp [Tables.closeConn, setRequest, freeRequest, Live]
  · simp [Tables.closeConn, setRequest, freeRequest]
  · simp [Tables.closeConn, setRequest, setRecord]
  · exact sound.rest

theorem acceptConn (sound : t.Sound cfg) (free : t.Free cfg i) : (t.acceptConn i).Sound cfg := by
  have other : i ≠ cfg.listenFd := by
    rintro rfl
    exact sound.listen free.2.1
  have unused : t.recordP i = initRecord := by
    by_contra used
    exact (sound.live_of_seat (sound.status_of_record used)).2.1 free.2.1
  have positive : (i : Int) ≠ -1 := by omega
  apply sound.slot i other
  · intro k different
    simp [Tables.acceptConn, setRequest, different]
  · simp [Tables.acceptConn, setRequest, Live, free.1, positive, other]
  · simp [Tables.acceptConn, setRequest]
  · exact fun _ => unused
  · exact sound.rest

/-- Storing a cell leaves every train file at rest. -/
theorem rest_put (sound : t.Sound cfg) (fd : Int) (k : Nat) (c : Char) (j : Fin TRAIN_NUM) :
    (Function.update t.files fd ((t.files fd).put k c) (cfg.trains j)).Rest := by
  by_cases same : (cfg.trains j : Int) = fd
  · rw [same, Function.update_self]
    exact ⟨rfl, rfl⟩
  · rw [Function.update_of_ne same]
    exact sound.rest j

/-- A connection moves between `SEAT` and `BOOKED`. -/
theorem setStatus (sound : t.Sound cfg) {status : Status}
    (before : (t.requestP i).status = .SEAT ∨ (t.requestP i).status = .BOOKED)
    (next : status = .SEAT ∨ status = .BOOKED) : (t.setStatus i status).Sound cfg := by
  apply sound.serve i
  · simp [Tables.setStatus, setRequest]
  · intro k other
    simp [Tables.setStatus, setRequest, other]
  · exact (sound.live i).mpr (sound.live_of_seat before)
  · simpa [Tables.setStatus, setRequest] using next
  · exact sound.bound i before
  · exact sound.rest

/-- A connection changes one of its seats. -/
theorem mark (sound : t.Sound cfg)
    (status : (t.requestP i).status = .SEAT ∨ (t.requestP i).status = .BOOKED) (k : Nat)
    (seat : Seat) (change fd : Int) (c : Char) : (t.mark i k seat change fd c).Sound cfg := by
  apply sound.serve i
  · rfl
  · intro other different
    simp [Tables.mark, setRecord, different]
  · exact (sound.live i).mpr (sound.live_of_seat status)
  · exact status
  · simpa [Tables.mark, setRecord, Record.setSeat] using sound.bound i status
  · exact sound.rest_put _ _ _

theorem effect (sound : t.Sound cfg) (effect : Effect cfg t u) : u.Sound cfg := by
  cases effect with
  | again booked => exact sound.setStatus (.inr booked) (.inl rfl)
  | bind shift line looked room =>
    rename_i i j
    apply sound.serve i
    · simp [Tables.bind, Tables.setStatus, setRequest, setRecord]
    · intro k other
      simp [Tables.bind, Tables.setStatus, setRequest, setRecord, other]
    · simp [shift]
    · simp
    · exact ⟨j, by simp⟩
    · exact sound.rest
  | choose seat record bound other available => exact sound.mark (.inl seat) ..
  | cancel seat record bound chosen => exact sound.mark (.inl seat) ..
  | pay seat record bound chosen => exact (sound.mark seat ..).setStatus seat (.inr rfl)

theorem effects (sound : t.Sound cfg) (effects : Effects cfg t u) : u.Sound cfg := by
  induction effects with
  | refl => exact sound
  | tail _ last ih => exact ih.effect last

end Sound
end Tables

/-- What an action within bounds does to the tables. -/
inductive Outcome (cfg : Config) (t : Tables) (action : Action) : Tables → Prop where
  | accepted {fd : Nat} (free : t.Free cfg fd) (continues : t.ending action = none) :
      Outcome cfg t action (t.acceptConn fd)
  | ended {i : Nat} (live : t.Live cfg i) (ends : t.ending action = some i) :
      Outcome cfg t action (t.closeConn i)
  | failed {i k : Nat} {j : Fin TRAIN_NUM} (live : t.Live cfg i) (bound : k < SEAT_NUM)
      (unreadable : (t.files (cfg.trains j)).Unreadable k) : Outcome cfg t action (t.closeConn i)
  | served {i : Nat} {text : List Char} {u : Tables}
      (line : t.received action = some (t.store i text, i)) (continues : t.ending action = none)
      (effects : Effects cfg (t.store i text) u) : Outcome cfg t action u

theorem Tables.Sound.outcome {cfg : Config} {t u : Tables} {action : Action}
    (sound : t.Sound cfg) (outcome : Outcome cfg t action u) : u.Sound cfg := by
  cases outcome with
  | accepted free continues => exact sound.acceptConn free
  | ended live ends => exact sound.closeConn live
  | failed live bound unreadable => exact sound.closeConn live
  | served line continues effects => exact (sound.store _ _).effects effects

namespace World

variable {cfg : Config} {env : Env} {w t : World} {i : Nat} {action : Action}

/-- A shift selection that looks up no train ends the process. -/
theorem handleShift_outside (line : (w.requestP i).buf ∈ shiftIds)
    (outside : ¬ (0 ≤ w.readTrainNum ∧ w.readTrainNum < TRAIN_NUM)) :
    w.handleShift cfg env i = (w.log (.train w.readTrainNum)).stop .outOfBounds := by
  have missing := cfg.trainFd_outside outside
  unfold handleShift
  rw [if_neg (not_not.mpr line)]
  dsimp only
  unfold Tables.readTrainNum at missing ⊢
  rw [missing]

theorem handleLine_seatLine (line : w.SeatLine i) :
    w.handleLine cfg env i = w.handleSeat cfg env i := by
  obtain ⟨seat, exits, pays⟩ := line
  unfold handleLine
  rw [if_neg exits, seat]
  dsimp only
  exact if_neg fun both => pays both.2

theorem handleLine_shiftLine (line : w.ShiftLine i) :
    w.handleLine cfg env i = w.handleShift cfg env i := by
  obtain ⟨shift, shiftId⟩ := line
  have exits : (w.requestP i).buf ≠ "exit".toList := by
    intro exits
    rw [exits] at shiftId
    exact absurd shiftId (by decide +kernel)
  unfold handleLine
  rw [if_neg exits, shift]

/-- A stored line with its seat in range ends the connection or is a run of effects. -/
theorem handleLine_ok (sound : w.Sound cfg) (succeeds : env.Succeeds) (running : w.halt = none)
    (live : w.Live cfg i) (range : w.SeatInRange i) :
    (w.TrainInRange i → Went w.readTrainNum w (w.handleLine cfg env i)) ∧
      ((w.LineEnds i ∧ (w.handleLine cfg env i).toTables = w.toTables.closeConn i) ∨
        (¬ w.LineEnds i ∧ Effects cfg w.toTables (w.handleLine cfg env i).toTables) ∨
        ((∃ j k, k < SEAT_NUM ∧ (w.files (cfg.trains j)).Unreadable k) ∧
          (w.handleLine cfg env i).toTables = w.toTables.closeConn i)) := by
  have valid := (sound.live i).mpr live
  by_cases exits : (w.requestP i).buf = "exit".toList
  · unfold handleLine
    rw [if_pos exits]
    exact ⟨fun _ => .of_same rfl rfl, .inl ⟨.inl exits, rfl⟩⟩
  cases status : (w.requestP i).status with
  | INVALID => exact absurd status valid
  | SHIFT =>
    by_cases line : (w.requestP i).buf ∈ shiftIds
    · rw [handleLine_shiftLine ⟨status, line⟩]
      have continues : ¬ w.LineEnds i := by
        rintro (ends | ⟨_, invalid⟩ | ⟨booked, _⟩)
        · exact exits ends
        · exact invalid line
        · exact absurd (status.symm.trans booked) (by decide)
      by_cases inside : 0 ≤ w.readTrainNum ∧ w.readTrainNum < TRAIN_NUM
      · obtain ⟨j, looked⟩ := exists_train inside
        obtain ⟨went, tables⟩ := handleShift_ok succeeds line looked (sound.rest j)
        rw [looked]
        refine ⟨fun _ => went, .inr (.inl ⟨continues, ?_⟩)⟩
        rw [tables]
        split
        · exact .refl
        · rename_i room
          exact .single (.bind status line looked (by simpa using room))
      · rw [handleShift_outside line inside]
        exact ⟨fun within => absurd (within ⟨status, line⟩) inside,
          .inr (.inl ⟨continues, .refl⟩)⟩
    · unfold handleLine
      rw [if_neg exits, status]
      dsimp only
      unfold handleShift
      rw [if_pos line]
      exact ⟨fun _ => .of_same rfl rfl, .inl ⟨.inr (.inl ⟨status, line⟩), rfl⟩⟩
  | BOOKED =>
    obtain ⟨went, outcome⟩ := handleBooked_ok cfg w.readTrainNum status exits
    unfold handleLine
    rw [if_neg exits, status]
    refine ⟨fun _ => went, ?_⟩
    rcases outcome with ⟨again, effects⟩ | ⟨invalid, closed⟩
    · exact .inr (.inl ⟨by simp [Tables.LineEnds, status, again], effects⟩)
    · exact .inl ⟨.inr (.inr ⟨status, invalid⟩), closed⟩
  | SEAT =>
    have continues : ¬ w.LineEnds i := by
      rintro (ends | ⟨shift, _⟩ | ⟨booked, _⟩)
      · exact exits ends
      · exact absurd (status.symm.trans shift) (by decide)
      · exact absurd (status.symm.trans booked) (by decide)
    obtain ⟨j, record⟩ := sound.bound i (.inl status)
    by_cases pays : (w.requestP i).buf = "pay".toList
    · obtain ⟨went, effects⟩ :=
        pay_ok (n := w.readTrainNum) running status record (sound.rest j)
      unfold handleLine
      rw [if_neg exits, status]
      dsimp only
      rw [if_pos ⟨rfl, pays⟩]
      exact ⟨fun _ => went, .inr (.inl ⟨continues, effects⟩)⟩
    · have line : w.SeatLine i := ⟨status, exits, pays⟩
      rw [handleLine_seatLine line]
      obtain ⟨went, outcome⟩ := handleSeat_ok (n := w.readTrainNum) succeeds running status
        record (sound.rest j) live.1 (range line)
      refine ⟨fun _ => went, ?_⟩
      rcases outcome with effects | ⟨⟨k, bound, unreadable⟩, closed⟩
      · exact .inr (.inl ⟨continues, effects⟩)
      · exact .inr (.inr ⟨⟨j, k, bound, unreadable⟩, closed⟩)

end World

/-- Ending a connection forgets the line stored before. -/
theorem Tables.store_closeConn (t : Tables) (i : Nat) (text : List Char) :
    (t.store i text).closeConn i = t.closeConn i := by
  simp [store, closeConn, setRequest, setRecord]

/-- The world behind a step. -/
inductive World.Stepped (cfg : Config) (w : World) (action : Action) : World → Prop where
  | accept {fd : Nat} (free : w.Free cfg fd) (received : w.received action = none)
      (continues : w.ending action = none) : Stepped cfg w action (w.acceptConn fd)
  | close {i : Nat} (live : w.Live cfg i) (received : w.received action = none)
      (ends : w.ending action = some i) : Stepped cfg w action (w.closeConn i)
  | line {i : Nat} {text : List Char} {env : Env} (live : w.Live cfg i)
      (received : w.received action = some (w.toTables.store i text, i))
      (ends : w.ending action = if (w.toTables.store i text).LineEnds i then some i else none)
      (fine : action.CallsSucceed → env.Succeeds) :
      Stepped cfg w action ((w.store i text).handleLine cfg env i)

namespace World

variable {cfg : Config} {w t : World} {action : Action}

/-- A step is an `accept`, the end of a connection by a timeout or an end of file, or
`handleLine` on a stored line. -/
theorem step_cases (transition : w.step cfg action = some t) :
    w.halt = none ∧ Stepped cfg w action t := by
  unfold step at transition
  split at transition
  · cases transition
  rename_i running
  refine ⟨by simpa using running, ?_⟩
  cases action with
  | accept fd =>
    dsimp only at transition
    split at transition
    · rename_i free
      have next := Option.some.inj transition
      subst next
      exact .accept free rfl rfl
    · cases transition
  | timeout i =>
    dsimp only at transition
    split at transition
    · rename_i live
      have next := Option.some.inj transition
      subst next
      exact .close live rfl rfl
    · cases transition
  | recv i chunk env =>
    dsimp only at transition
    split at transition
    · rename_i possible
      split at transition
      · rename_i eof
        have next := Option.some.inj transition
        subst next
        exact .close possible.1 (by simp [Tables.received, eof]) (by simp [Tables.ending, eof])
      · rename_i text line
        have next := Option.some.inj transition
        subst next
        exact .line possible.1 (by simp [Tables.received, line]) (by simp [Tables.ending, line])
          fun succeeds => succeeds
      · cases transition
    · cases transition

/-- A step with its seat in range, and its trace when its train is in range as well. -/
theorem step_ok (sound : w.Sound cfg) (succeeds : action.CallsSucceed)
    (seat : w.OnLine Tables.SeatInRange action) (transition : w.step cfg action = some t) :
    (w.OnLine Tables.TrainInRange action → ∃ n, Went n w t) ∧
      Outcome cfg w.toTables action t.toTables := by
  obtain ⟨running, stepped⟩ := step_cases transition
  cases stepped with
  | accept free received continues =>
    exact ⟨fun _ => ⟨0, .of_same rfl rfl⟩, .accepted free continues⟩
  | close live received ends => exact ⟨fun _ => ⟨0, .of_same rfl rfl⟩, .ended live ends⟩
  | line live received ends fine =>
    rename_i i text env
    obtain ⟨went, outcome⟩ := handleLine_ok (w := w.store i text) (sound.store i text)
      (fine succeeds) running (Tables.live_store.mpr live) (seat _ received)
    have stored : Went (w.store i text).readTrainNum w (w.store i text) := .of_same rfl rfl
    refine ⟨fun inside => ⟨_, stored.trans (went (inside _ received))⟩, ?_⟩
    rcases outcome with ⟨lineEnds, closed⟩ | ⟨continues, effects⟩ | ⟨⟨j, k, bound, bad⟩, closed⟩
    · rw [closed]
      exact Tables.store_closeConn w.toTables i text ▸ .ended live (ends.trans (if_pos lineEnds))
    · exact .served received (ends.trans (if_neg continues)) effects
    · rw [closed]
      exact Tables.store_closeConn w.toTables i text ▸ .failed live bound bad

/-- What a step within bounds does to the tables. -/
theorem step_outcome (sound : w.Sound cfg) (succeeds : action.CallsSucceed)
    (seat : w.OnLine Tables.SeatInRange action) (transition : w.step cfg action = some t) :
    Outcome cfg w.toTables action t.toTables :=
  (step_ok sound succeeds seat transition).2

/-- Nobody is connected at first, and the files are just opened. -/
theorem initServer_sound (cfg : Config) (heap : Nat → List Char)
    (disk : Fin TRAIN_NUM → List Char) : (initServer cfg heap disk).Sound cfg where
  listen := by simp [initServer]
  live i := by
    simp only [initServer, Tables.Live, ne_eq, not_true_eq_false, false_iff]
    rintro ⟨_, connected, other⟩
    simp [other] at connected
  bound i status := by simp [initServer] at status
  fresh i _ := rfl
  rest j := ⟨rfl, rfl⟩

end World

/-- A step whose calls succeed and whose seat line is in range. -/
def seatsInRange (w : World) (action : Action) : Prop :=
  action.CallsSucceed ∧ w.OnLine Tables.SeatInRange action

instance (w : World) (action : Action) : Decidable (seatsInRange w action) := by
  unfold seatsInRange
  infer_instance

variable {cfg : Config} {heap : Nat → List Char} {disk : Fin TRAIN_NUM → List Char}

/-- The tables stay sound as long as the seat lines are in range. -/
theorem sound_reached {w : World} (reached : (machine cfg heap disk).Reach seatsInRange w) :
    w.Sound cfg := by
  apply reached.invariant (fun w => w.Sound cfg)
  · rintro w rfl
    exact World.initServer_sound cfg heap disk
  · intro w action t _ sound allowed transition
    exact sound.outcome (World.step_outcome sound allowed.1 allowed.2 transition)

end NTUSP.Server
