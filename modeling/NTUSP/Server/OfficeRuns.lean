import NTUSP.Server.Represented

/-!
# Runs of the server are runs of the office

From train files with ten rows of four seats. The lines of a run may be anything but a seat
number outside the train, and the slip of a client with one chosen seat that names no seat.
-/

namespace NTUSP.Server

open NTUSP.Library CString

instance (t : Tables) (i : Nat) : Decidable (t.Slips i) := by
  unfold Tables.Slips
  infer_instance

/-- A seat command names a seat of the train, or none, and then the counter is not taken for a
chosen seat. The calls of the step may fail. -/
def harmless (w : World) (action : Action) : Prop :=
  w.OnLine (fun u i => u.SeatOrNone i ∧ ¬ u.Slips i) action

/-- As well the calls succeed, and a shift selection looks up one of the trains. -/
def faultless (w : World) (action : Action) : Prop :=
  harmless w action ∧ action.CallsSucceed ∧ w.OnLine Tables.TrainInRange action

instance (w : World) (action : Action) : Decidable (harmless w action) :=
  inferInstanceAs (Decidable (w.OnLine (fun u i => u.SeatOrNone i ∧ ¬ u.Slips i) action))

instance (w : World) (action : Action) : Decidable (faultless w action) := by
  unfold faultless
  infer_instance

namespace World

variable {cfg : Config} {w t : World} {action : Action} {o : Office}

/-- A line out of range that does no harm names no seat, and ends the connection. -/
theorem step_unnamed (allowed : harmless w action) (other : ¬ inRange w action)
    (transition : w.step cfg action = some t) :
    ∃ i text, w.Live cfg i ∧ w.received action = some (w.toTables.store i text, i) ∧
      t.toTables = (w.toTables.store i text).closeConn i := by
  obtain ⟨_, stepped⟩ := step_cases transition
  unfold inRange Tables.OnLine at other
  push Not at other
  obtain ⟨⟨u, i⟩, known, outside⟩ := other
  cases stepped with
  | accept free received continues =>
    rw [received] at known
    cases known
  | close live received ends =>
    rw [received] at known
    cases known
  | line live received ends fine =>
    rename_i i' text env
    rw [received] at known
    obtain ⟨rfl, rfl⟩ := Prod.mk.inj (Option.some.inj known)
    obtain ⟨range, kept⟩ : (w.store i' text).SeatOrNone i' ∧ ¬ (w.store i' text).Slips i' :=
      allowed _ received
    have outside : ¬ (w.store i' text).SeatInRange i' := outside
    unfold Tables.SeatInRange at outside
    push Not at outside
    obtain ⟨line, beyond⟩ := outside
    obtain ⟨low, high⟩ := range line
    have none : atoi ((w.store i' text).requestP i').buf = 0 := by
      by_contra named
      have above := beyond (by omega)
      omega
    have counter : ((w.store i' text).recordP i').numOfChosenSeats ≠ 1 :=
      fun one => kept ⟨line, none, one⟩
    refine ⟨i', text, live, received, ?_⟩
    rw [handleLine_seatLine line]
    unfold handleSeat
    dsimp only
    rw [none, addORcancel_zero (w.store i' text) live.1, if_neg counter]
    dsimp only
    rw [if_pos (by decide), if_pos rfl]
    rfl

theorem step_turn_of_harmless (sound : w.settle.Sound cfg) (allowed : harmless w action)
    (transition : w.step cfg action = some t) : ∃ events, Turn cfg w action events t.settle := by
  by_cases range : inRange w action
  · exact ⟨_, step_turn sound range transition⟩
  · obtain ⟨i, text, live, received, closed⟩ := step_unnamed allowed range transition
    have settled : t.settle = (w.store i text).settle.closeConn i := by
      rw [closed]
      rfl
    rw [settled]
    exact ⟨[], .line live received .closed⟩

theorem Ordered.turn {events : List SeatEvent} (ordered : w.Ordered cfg)
    (turn : Turn cfg w action events t.settle) : t.Ordered cfg where
  sound := turn.sound ordered.sound
  seated := turn.seated ⟨ordered.sound, ordered.seated⟩
  tallied := turn.tallied ordered.tallied ordered.sound
  ruled := turn.ruled ordered.ruled

theorem Ordered.store (ordered : w.Ordered cfg) (i : Nat) (text : List Char) :
    (w.store i text).Ordered cfg where
  sound := ordered.sound.store i text
  seated := ordered.seated.of_same rfl rfl
  tallied := ordered.tallied.store i text
  ruled := ordered.ruled

theorem Represents.store (represents : w.Represents cfg o) (i : Nat) (text : List Char) :
    (w.store i text).Represents cfg o where
  records := represents.records.store i text
  sent := represents.sent

/-- A step is a visit, or nothing the clients see. -/
theorem step_visited (framed : w.Framed cfg) (ordered : w.Ordered cfg)
    (represents : w.Represents cfg o) (allowed : harmless w action)
    (transition : w.step cfg action = some t) :
    ∃ visits o', office.run o visits = some o' ∧ t.Represents cfg o' ∧
      (w.Sound cfg → faultless w action → visits = [w.visit action]) := by
  unfold step at transition
  split at transition
  · cases transition
  rename_i going
  have running : w.halt = none := by simpa using going
  have closes : ∀ {i : Nat}, w.Live cfg i → ∃ o', office.run o [.leave i] = some o' ∧
      (w.closeConn i).Represents cfg o' := by
    intro i live
    have valid : (w.requestP i).status ≠ .INVALID := (ordered.sound.live i).mpr live
    refine ⟨o.leave i, ?_, represents.records.closeConn i, represents.sent⟩
    rw [Machine.run_singleton]
    exact if_neg (mt represents.records.away.mp valid)
  cases action with
  | accept fd =>
    dsimp only at transition
    split at transition
    · rename_i free
      obtain rfl := Option.some.inj transition
      have away : o.desk fd = .away := by
        refine represents.records.away.mpr ?_
        by_contra valid
        exact ((ordered.sound.live fd).mp valid).2.1 free.2.1
      refine ⟨[.arrive fd], (o.sit fd .shift).tell fd [welcomeBanner, writeShiftMsg], ?_, ?_,
        fun _ _ => rfl⟩
      · rw [Machine.run_singleton]
        exact if_pos away
      · have records : (w.settle.acceptConn fd).Records cfg (o.sit fd .shift) :=
          represents.records.acceptConn fd
        refine represents.next (records.tell fd _) rfl (fun _ => rfl) ?_
        simp [acceptConn, send, setRequest]
    · cases transition
  | timeout i =>
    dsimp only at transition
    split at transition
    · rename_i live
      obtain rfl := Option.some.inj transition
      obtain ⟨o', ran, represented⟩ := closes live
      exact ⟨_, o', ran, represented, fun _ _ => rfl⟩
    · cases transition
  | recv i chunk env =>
    dsimp only at transition
    split at transition
    · rename_i possible
      obtain ⟨live, _⟩ := possible
      split at transition
      · rename_i eof
        obtain rfl := Option.some.inj transition
        obtain ⟨o', ran, represented⟩ := closes live
        refine ⟨_, o', ran, represented, fun _ _ => ?_⟩
        simp [visit, Tables.received, eof]
      · rename_i text line
        obtain rfl := Option.some.inj transition
        have received : w.received (.recv i chunk env) = some (w.toTables.store i text, i) := by
          simp [Tables.received, line]
        obtain ⟨range, kept⟩ : (w.store i text).SeatOrNone i ∧ ¬ (w.store i text).Slips i :=
          allowed _ received
        have conn : ((w.store i text).requestP i).connFd = i := by
          have own := connFd_of_live framed live
          simpa [store, setRequest] using own
        obtain ⟨visits, o', ran, represented, regular⟩ := line_visited (ordered.store i text)
          (represents.store i text) running (Tables.live_store.mpr live) conn range kept
        refine ⟨visits, o', ran, represented, fun sound fine => ?_⟩
        have only := regular ⟨sound.rest, fine.2.1, fine.2.2 _ received⟩
        rw [only]
        unfold visit
        rw [received]
        rfl
      · cases transition
    · cases transition

end World

/-! ## Runs -/

/-- The office as it opens on the train files. -/
def Office.opened (disk : Fin TRAIN_NUM → List Char) : Office where
  desk _ := .away
  claim cell := if (disk cell.1)[2 * (cell.2 : Nat)]? = some '0' then .free else .sold
  sent := []

theorem Office.opened_opens (disk : Fin TRAIN_NUM → List Char) : (Office.opened disk).Opens where
  desk _ := rfl
  claim cell := by
    simp only [opened]
    split
    · exact .inl rfl
    · exact .inr rfl
  sent := rfl

variable {cfg : Config} {heap : Nat → List Char} {disk : Fin TRAIN_NUM → List Char} {w : World}

theorem represents_opened (grids : ∀ j, Grid (disk j)) :
    (World.initServer cfg heap disk).Represents cfg (Office.opened disk) := by
  have nobody : ∀ i j, ¬ (World.initServer cfg heap disk).On cfg i j := by
    intro i j on
    have none : (-1 : Int) = cfg.trains j := on
    omega
  have opens := Office.opened_opens disk
  refine ⟨⟨fun i => rfl, fun i cell => ?_, fun i cell => ?_, fun cell => ?_⟩, rfl⟩
  · refine iff_of_false (fun chosen => ?_) fun both => nobody _ _ both.1
    rcases opens.claim cell with free | sold
    · simp [free] at chosen
    · simp [sold] at chosen
  · refine iff_of_false (fun paid => ?_) fun both => nobody _ _ both.1
    rcases opens.claim cell with free | sold
    · simp [free] at paid
    · simp [sold] at paid
  · have byte := initServer_seatByte cfg heap disk cell.1 cell.2
    refine Eq.trans byte ?_
    simp only [Office.opened]
    rcases (grids cell.1).seats cell.2 cell.2.isLt with free | sold
    · rw [if_pos free]
      exact free
    · rw [if_neg (by simp [sold])]
      exact sold

theorem ordered_reached (grids : ∀ j, Grid (disk j))
    (reached : (machine cfg heap disk).Reach harmless w) : w.Ordered cfg := by
  apply reached.invariant (fun w => w.Ordered cfg)
  · rintro _ rfl
    have start : (machine cfg heap disk).Reach inRange (World.initServer cfg heap disk) :=
      .initial rfl
    have kept := kept_reached (fun j k bound => (grids j).seats k bound) start
    exact ⟨kept.sound, kept.seated, tallied_reached start, ruled_reached grids start⟩
  · intro w action t _ ordered allowed transition
    obtain ⟨events, turn⟩ := World.step_turn_of_harmless ordered.sound allowed transition
    exact ordered.turn turn

/-- Without failing calls the train files are at rest between two steps. -/
theorem sound_of_faultless (reached : (machine cfg heap disk).Reach faultless w) : w.Sound cfg := by
  apply reached.invariant (fun w => w.Sound cfg)
  · rintro _ rfl
    exact World.initServer_sound cfg heap disk
  · intro w action t _ sound allowed transition
    by_cases range : inRange w action
    · exact sound.outcome (World.step_outcome sound allowed.2.1 range transition)
    · obtain ⟨i, text, live, _, closed⟩ := World.step_unnamed allowed.1 range transition
      rw [closed]
      exact (sound.store i text).closeConn (Tables.live_store.mpr live)

theorem sized_of_grids (grids : ∀ j, Grid (disk j)) : Sized disk := by
  intro j
  rw [(grids j).ruled.length]
  omega

/-- The server refines the office. -/
theorem refines_office (grids : ∀ j, Grid (disk j)) :
    (machine cfg heap disk).Refines office harmless fun w o => w.Represents cfg o where
  start w first := by
    obtain rfl := first
    exact ⟨_, Office.opened_opens disk, represents_opened grids⟩
  step w action t o reached _ represents allowed transition := by
    obtain ⟨visits, o', ran, represented, _⟩ := World.step_visited
      (framed_reached (sized_of_grids grids) reached) (ordered_reached grids reached) represents
      allowed transition
    exact ⟨visits, o', ran, represented⟩

/-- A run without failing calls is the run of the office on its visits. -/
theorem office_run (grids : ∀ j, Grid (disk j)) {history : List (World × Action)}
    (reached : (machine cfg heap disk).tracing.Reach (fun state => faultless state.1) (w, history)) :
    ∃ o, office.run (Office.opened disk) (history.map fun made => made.1.visit made.2) = some o ∧
      w.Represents cfg o := by
  refine reached.followed office (fun w o => w.Represents cfg o) World.visit ?_ ?_
  · rintro _ rfl
    exact represents_opened grids
  · intro w action t o prior represents allowed transition
    have harmlessly := prior.mono fun _ _ fine => fine.1
    obtain ⟨visits, o', ran, represented, only⟩ := World.step_visited
      (framed_reached (sized_of_grids grids) prior) (ordered_reached grids harmlessly) represents
      allowed.1 transition
    rw [only (sound_of_faultless prior) allowed, Machine.run_singleton] at ran
    exact ⟨o', ran, represented⟩

/-- From train files with ten rows of four seats, the server is always in a state of the office.
In a run without failing calls and with its look-ups in range it is the one to which the visits
of the run lead. -/
theorem server_is_office (grids : ∀ j, Grid (disk j)) :
    (∀ w, (machine cfg heap disk).Reach harmless w →
        ∃ o, office.Reach Machine.anyStep o ∧ w.Represents cfg o) ∧
      ∀ w history,
        (machine cfg heap disk).tracing.Reach (fun state => faultless state.1) (w, history) →
          ∃ o, office.run (Office.opened disk) (history.map fun made => made.1.visit made.2) = some o ∧
            w.Represents cfg o :=
  ⟨fun _ reached => (refines_office grids).represented reached,
    fun _ _ reached => office_run grids reached⟩

theorem fourth_lt : 3 < SEAT_NUM := by decide

/-- Two clients on the first shift: one pays for seat 4, and the other finds it booked. -/
theorem office_two_clients :
    ∃ w o, (machine smallConfig (fun _ => []) mixedTrains).Reach faultless w ∧
      o.claim (firstShift, ⟨3, fourth_lt⟩) = .paid 9 ∧
      o.told 10 = [welcomeBanner, writeShiftMsg, bookingInfo 902001 [] [], writeSeatMsg,
        seatBookedMsg, writeSeatMsg] ∧ w.Represents smallConfig o := by
  have ran : ((machine smallConfig (fun _ => []) mixedTrains).tracing.exec
      (fun state action => faultless state.1 action)
      (World.initServer smallConfig (fun _ => []) mixedTrains, [])
      [.accept 9, .accept 10, sends 10 "902001", sends 9 "902001", sends 9 "4", sends 9 "pay",
        sends 10 "4"]).map (fun state => state.2.map fun made => made.1.visit made.2) =
      some [.arrive 9, .arrive 10, .line 10 "902001".toList firstShift,
        .line 9 "902001".toList firstShift, .line 9 "4".toList firstShift,
        .line 9 "pay".toList firstShift, .line 10 "4".toList firstShift] := by
    decide +kernel
  have first : (machine smallConfig (fun _ => []) mixedTrains).tracing.Initial
      (World.initServer smallConfig (fun _ => []) mixedTrains, []) := ⟨rfl, rfl⟩
  obtain ⟨⟨w, history⟩, reached, visits⟩ := Machine.Reach.of_ran first ran
  obtain ⟨o, made, represents⟩ := (server_is_office mixedTrains_grid).2 w history reached
  have known : (office.run (Office.opened mixedTrains) [.arrive 9, .arrive 10,
      .line 10 "902001".toList firstShift, .line 9 "902001".toList firstShift,
      .line 9 "4".toList firstShift, .line 9 "pay".toList firstShift,
      .line 10 "4".toList firstShift]).map
        (fun o => (o.claim (firstShift, ⟨3, fourth_lt⟩), o.told 10)) =
      some (.paid 9, [welcomeBanner, writeShiftMsg, bookingInfo 902001 [] [], writeSeatMsg,
        seatBookedMsg, writeSeatMsg]) := by
    decide +kernel
  dsimp only at visits
  rw [visits] at made
  rw [made] at known
  obtain ⟨claim, told⟩ := Prod.mk.inj (Option.some.inj known)
  exact ⟨w, o, reached.forget, claim, told, represents⟩

/-! ## What the clients are told -/

/-- The messages on descriptor `i`. -/
def World.told (w : World) (i : Nat) : List (List Char) :=
  (w.sent.filter fun message => message.1 = (i : Int)).map fun message => message.2

/-- What a client is asked in a state. -/
def Status.prompt : Status → List Char
  | INVALID => []
  | SHIFT => writeShiftMsg
  | SEAT => writeSeatMsg
  | BOOKED => writeSeatOrExitMsg

theorem World.Represents.told {o : Office} (represents : w.Represents cfg o) (i : Nat) :
    w.told i = o.told i := by
  unfold World.told Office.told
  rw [represents.sent, List.filter_map, List.map_map]
  simp [Function.comp_def]

/-- The desk of a client is the state of its connection. -/
theorem Tables.Records.prompt {t : Tables} {o : Office} (records : t.Records cfg o) (i : Nat) :
    (o.desk i).prompt = (t.requestP i).status.prompt := by
  have fits := records.desk i
  cases desk : o.desk i with
  | away =>
    rw [desk] at fits
    rw [show (t.requestP i).status = .INVALID from fits]
    rfl
  | shift =>
    rw [desk] at fits
    rw [show (t.requestP i).status = .SHIFT from fits]
    rfl
  | seats shown train =>
    rw [desk] at fits
    rw [fits.1]
    rfl
  | booked shown train =>
    rw [desk] at fits
    rw [fits.1]
    rfl

/-- Whatever the other clients do and whatever calls fail, the last message to a client is the
question of its state, and the last booking info it was sent is the one of its record now. -/
theorem told_booking (grids : ∀ j, Grid (disk j))
    (reached : (machine cfg heap disk).Reach harmless w) {i : Nat} (live : w.Live cfg i) :
    (w.told i).getLast? = some (w.requestP i).status.prompt ∧
      ((w.requestP i).status = .SEAT ∨ (w.requestP i).status = .BOOKED →
        lastInfo (w.told i) = some (printTrainInfo (w.recordP i))) := by
  obtain ⟨o, candid, represents⟩ := (refines_office grids).transfer
    (fun o => ∀ i, o.Candid i) (fun _ opens => opens.candid)
    (fun _ _ _ _ candid transition => Office.step_candid candid transition) reached
  have sound := (ordered_reached grids reached).sound
  have here : o.desk i ≠ .away := mt represents.records.away.mp ((sound.live i).mpr live)
  rw [represents.told]
  refine ⟨?_, fun status => ?_⟩
  · rw [(candid i).prompt here, represents.records.prompt]
    rfl
  · obtain ⟨j, on⟩ := sound.bound i status
    have info : printTrainInfo (w.recordP i) = o.info i (w.recordP i).shiftId j :=
      represents.records.info rfl on
    rw [info]
    rcases status with seat | booked
    · exact (candid i).info _ _ (.inl (represents.records.seats seat on))
    · exact (candid i).info _ _ (.inr (represents.records.booked booked on))

/-- A client has chosen seat 4, and meanwhile another one has taken seat 5 and left. -/
theorem told_booking_two_clients :
    ∃ w, (machine smallConfig (fun _ => []) mixedTrains).Reach harmless w ∧
      (w.recordP 9).seatStat 3 = .CHOSEN ∧
      (w.told 9).getLast? = some writeSeatMsg ∧
      lastInfo (w.told 9) = some (printTrainInfo (w.recordP 9)) := by
  have ran : ((machine smallConfig (fun _ => []) mixedTrains).exec
      (fun w action => harmless w action) (World.initServer smallConfig (fun _ => []) mixedTrains)
      [.accept 9, .accept 10, sends 10 "902001", sends 9 "902001", sends 9 "4", sends 10 "5",
        sends 9 "5", sends 10 "exit"]).map (fun w =>
          ((w.recordP 9).seatStat 3, (w.requestP 9).status, decide (w.Live smallConfig 9))) =
      some (.CHOSEN, .SEAT, true) := by
    decide +kernel
  obtain ⟨w, reached, known⟩ := Machine.Reach.of_ran rfl ran
  obtain ⟨chosen, rest⟩ := Prod.mk.inj known
  obtain ⟨status, live⟩ := Prod.mk.inj rest
  obtain ⟨asked, informed⟩ := told_booking mixedTrains_grid reached (of_decide_eq_true live)
  rw [status] at asked
  exact ⟨w, reached, chosen, asked, informed (.inl status)⟩

end NTUSP.Server
