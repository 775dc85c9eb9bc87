import NTUSP.Server.Seats

/-!
# Which train a connection books on

The train is computed from the buffer of the connection accepted last. Every connection
books on the train of its own shift as long as that buffer names the same shift at each
selection. This needs no call to succeed; that a selection of a train with a free seat is
granted does.
-/

namespace NTUSP.Server

open NTUSP.Library CString

namespace Tables

/-- The train of the shift that connection `i` has sent. -/
def ownTrainNum (t : Tables) (i : Nat) : Int := atoi (t.requestP i).buf - TRAIN_ID_START

/-- A shift selection looks up the train of its own shift. -/
def OwnShift (t : Tables) (i : Nat) : Prop := t.ShiftLine i → t.readTrainNum = t.ownTrainNum i

instance (t : Tables) (i : Nat) : Decidable (t.OwnShift i) := by
  unfold OwnShift
  infer_instance

/-- A connection in `SEAT` or `BOOKED` books on the file of the shift it is shown. -/
def BooksShown (cfg : Config) (t : Tables) : Prop :=
  ∀ i, (t.requestP i).status = .SEAT ∨ (t.requestP i).status = .BOOKED →
    ∃ j : Fin TRAIN_NUM, (t.recordP i).shiftId = TRAIN_ID_START + j ∧ t.On cfg i j

/-- `BooksShown`, and no connection is without a status. -/
structure Shown (cfg : Config) (t : Tables) : Prop where
  valid : ∀ i, t.Live cfg i → (t.requestP i).status ≠ .INVALID
  books : t.BooksShown cfg

end Tables

namespace World

variable {cfg : Config} {env : Env} {w t : World} {i k : Nat} {j : Fin TRAIN_NUM}
  {action : Action}

theorem shown_aside (shown : w.Shown cfg) (aside : Aside w t) : t.Shown cfg where
  valid i live := by
    unfold Tables.Live at live
    rw [aside.requestP] at live ⊢
    exact shown.valid i live
  books i status := by
    unfold Tables.On
    rw [aside.requestP] at status
    rw [aside.recordP]
    exact shown.books i status

/-- Only slot `i` changes, and what it holds then is in order. -/
theorem shown_slot (shown : w.Shown cfg) (i : Nat)
    (others : ∀ k, k ≠ i → t.requestP k = w.requestP k ∧ t.recordP k = w.recordP k)
    (valid : t.Live cfg i → (t.requestP i).status ≠ .INVALID)
    (books : (t.requestP i).status = .SEAT ∨ (t.requestP i).status = .BOOKED →
      ∃ j : Fin TRAIN_NUM, (t.recordP i).shiftId = TRAIN_ID_START + j ∧ t.On cfg i j) :
    t.Shown cfg where
  valid k live := by
    by_cases same : k = i
    · subst same
      exact valid live
    · unfold Tables.Live at live
      rw [(others k same).1] at live ⊢
      exact shown.valid k live
  books k inUse := by
    by_cases same : k = i
    · subst same
      exact books inUse
    · unfold Tables.On
      rw [(others k same).1] at inUse
      rw [(others k same).2]
      exact shown.books k inUse

/-- A record changes in its seats only. -/
theorem shown_setRecord (shown : w.Shown cfg) {r : Record}
    (shiftId : r.shiftId = (w.recordP i).shiftId) (trainFd : r.trainFd = (w.recordP i).trainFd) :
    (w.setRecord i r).Shown cfg := by
  apply shown_slot shown i
  · intro k other
    simp [setRecord, other]
  · exact shown.valid i
  · intro inUse
    simpa [setRecord, Tables.On, shiftId, trainFd] using shown.books i inUse

theorem shown_closeConn (shown : w.Shown cfg) (i : Nat) : (w.closeConn i).Shown cfg := by
  apply shown_slot shown i
  · intro k other
    simp [closeConn, setRequest, setRecord, other]
  · simp [closeConn, setRequest, Tables.Live, freeRequest]
  · simp [closeConn, setRequest, freeRequest]

theorem shown_setStatus (shown : w.Shown cfg) {status : Status}
    (next : status = .SEAT ∨ status = .BOOKED)
    (books : ∃ j : Fin TRAIN_NUM, (w.recordP i).shiftId = TRAIN_ID_START + j ∧ w.On cfg i j) :
    (w.setStatus i status).Shown cfg := by
  apply shown_slot shown i
  · intro k other
    simp [setStatus, setRequest, other]
  · rcases next with rfl | rfl <;> simp [setStatus, setRequest]
  · exact fun _ => books

/-- Connection `i` is shown the shift of the train it books on. -/
theorem shown_bind (shown : w.Shown cfg) {shiftId : Int} (own : shiftId = TRAIN_ID_START + j) :
    ((w.setRecord i { w.recordP i with shiftId := shiftId, trainFd := cfg.trains j }).setStatus i
      .SEAT).Shown cfg := by
  apply shown_slot shown i
  · intro k other
    simp [setStatus, setRequest, setRecord, other]
  · simp [setStatus, setRequest, setRecord]
  · exact fun _ => ⟨j, by simp [setStatus, setRequest, setRecord, Tables.On, own]⟩

theorem shown_store (shown : w.Shown cfg) (i : Nat) (text : List Char) :
    (w.store i text).Shown cfg := by
  apply shown_slot shown i
  · intro k other
    simp [store, setRequest, other]
  · intro live
    simpa [store, setRequest] using shown.valid i (Tables.live_store.mp live)
  · intro inUse
    exact shown.books i (by simpa [store, setRequest] using inUse)

/-- The words behind `train_fd` up to the last seat are none of another record, and neither the
shift nor the file of this one: index -1 is its counter. -/
theorem shown_setSeatStat (shown : w.Shown cfg) (inside : i < cfg.maxfd) {index : Int}
    (low : -1 ≤ index) (high : index < SEAT_NUM) (seat : Seat) :
    (w.setSeatStat cfg i index seat).Shown cfg := by
  have logged : (w.log (.seat index)).Shown cfg := ⟨shown.valid, shown.books⟩
  by_cases counter : index = -1
  · rw [counter] at logged ⊢
    rw [setSeatStat_counter inside]
    exact shown_setRecord logged rfl rfl
  · obtain ⟨k, rfl⟩ := Int.eq_ofNat_of_zero_le (show 0 ≤ index by omega)
    rw [setSeatStat_ok inside (by omega)]
    exact shown_setRecord logged rfl rfl

theorem shown_mark (shown : w.Shown cfg) (inside : i < cfg.maxfd) {index : Int}
    (low : -1 ≤ index) (high : index < SEAT_NUM) (seat : Seat) (change trainFd : Int) (c : Char) :
    (((w.setSeatStat cfg i index seat).addChosen i change).storeCell cfg trainFd index c).Shown
      cfg := by
  have stored := shown_setSeatStat shown inside low high seat
  have counted := shown_setRecord (i := i) stored
    (r := { (w.setSeatStat cfg i index seat).recordP i with
      numOfChosenSeats := ((w.setSeatStat cfg i index seat).recordP i).numOfChosenSeats + change })
    rfl rfl
  exact shown_aside counted (storeCell_aside cfg _ trainFd index c)

theorem shown_take (shown : w.Shown cfg) (inside : i < cfg.maxfd) {bookNum : Int}
    (low : 0 ≤ bookNum) (high : bookNum ≤ SEAT_NUM) (trainFd : Int) :
    (w.take cfg i bookNum trainFd).Shown cfg := by
  have first : -1 ≤ bookNum - 1 := by omega
  have last : bookNum - 1 < SEAT_NUM := by omega
  have marked := shown_mark shown inside first last .CHOSEN 1 trainFd '2'
  unfold take
  dsimp only
  split
  · exact shown_setSeatStat shown inside first last .CHOSEN
  · split
    · exact marked
    · exact shown_aside marked (.of_same rfl rfl rfl rfl)

theorem shown_cancel (shown : w.Shown cfg) (inside : i < cfg.maxfd) {bookNum : Int}
    (low : 0 ≤ bookNum) (high : bookNum ≤ SEAT_NUM) (trainFd : Int) :
    (w.cancel cfg i bookNum trainFd).Shown cfg := by
  have first : -1 ≤ bookNum - 1 := by omega
  have last : bookNum - 1 < SEAT_NUM := by omega
  have marked := shown_mark shown inside first last .UNKNOWN (-1) trainFd '0'
  unfold cancel
  dsimp only
  split
  · exact shown_setSeatStat shown inside first last .UNKNOWN
  · split
    · exact marked
    · exact shown_aside marked (.of_same rfl rfl rfl rfl)

theorem shown_choose (shown : w.Shown cfg) (inside : i < cfg.maxfd) {bookNum : Int}
    (low : 0 ≤ bookNum) (high : bookNum ≤ SEAT_NUM) (trainFd : Int) :
    (w.choose cfg env i bookNum trainFd).Shown cfg := by
  obtain ⟨t, aside, taken | answered | closed⟩ := choose_cases cfg env w i bookNum trainFd
  · rw [taken]
    exact shown_take (shown_aside shown aside) inside low high trainFd
  · rw [answered]
    exact shown_aside shown aside
  · rw [closed]
    exact shown_closeConn (shown_aside shown aside) i

/-- `addORcancel` only reads. -/
theorem shown_addORcancel (shown : w.Shown cfg) (i : Nat) (seatINP : Int) :
    (w.addORcancel cfg i seatINP).1.Shown cfg := by
  unfold addORcancel
  dsimp only
  split
  · exact ⟨shown.valid, shown.books⟩
  · split <;> exact ⟨shown.valid, shown.books⟩

/-- A seat command that names a seat or none keeps every binding, whatever the calls return. -/
theorem shown_handleSeat (shown : w.Shown cfg) (inside : i < cfg.maxfd)
    (range : 0 ≤ atoi (w.requestP i).buf ∧ atoi (w.requestP i).buf ≤ SEAT_NUM) :
    (w.handleSeat cfg env i).Shown cfg := by
  obtain ⟨low, high⟩ := range
  unfold handleSeat
  dsimp only
  have looked := shown_addORcancel shown i (atoi (w.requestP i).buf)
  generalize w.addORcancel cfg i (atoi (w.requestP i).buf) = first at looked ⊢
  obtain ⟨t, none | adds⟩ := first
  · exact looked
  dsimp only
  split
  · split
    · exact shown_closeConn (shown_aside looked (send_aside t i _)) i
    · exact shown_choose looked inside low high _
  · have again := shown_addORcancel looked i (atoi (w.requestP i).buf)
    generalize t.addORcancel cfg i (atoi (w.requestP i).buf) = second at again ⊢
    obtain ⟨u, none | cancels⟩ := second
    · exact again
    dsimp only
    split
    · exact shown_cancel again inside low high _
    · exact shown_aside again (send_aside u i _)

theorem shown_payStep (shown : w.Shown cfg)
    (seat : (w.requestP i).status = .SEAT ∨ (w.requestP i).status = .BOOKED) (trainFd : Int)
    (k : Nat) :
    (payStep cfg i trainFd w k).Shown cfg ∧
      (((payStep cfg i trainFd w k).requestP i).status = .SEAT ∨
        ((payStep cfg i trainFd w k).requestP i).status = .BOOKED) := by
  unfold payStep
  dsimp only
  split
  · exact ⟨shown, seat⟩
  split
  · have paid := shown_setRecord (i := i) shown (r := (w.recordP i).setSeat k .PAID) rfl rfl
    have booked := shown_setStatus (i := i) paid (.inr rfl) (paid.books i seat)
    have counted := shown_setRecord (i := i) booked
      (r := { ((w.setRecord i ((w.recordP i).setSeat k .PAID)).setStatus i .BOOKED).recordP i with
        numOfChosenSeats := (((w.setRecord i ((w.recordP i).setSeat k .PAID)).setStatus i
          .BOOKED).recordP i).numOfChosenSeats + -1 }) rfl rfl
    have stored := storeCell_aside cfg (((w.setRecord i ((w.recordP i).setSeat k .PAID)).setStatus i
      .BOOKED).addChosen i (-1)) trainFd k '1'
    refine ⟨shown_aside counted stored, .inr ?_⟩
    rw [stored.requestP]
    simp [addChosen, setRecord, setStatus, setRequest]
  · exact ⟨shown, seat⟩

theorem shown_payLoop (seats : List Nat) (shown : w.Shown cfg)
    (seat : (w.requestP i).status = .SEAT ∨ (w.requestP i).status = .BOOKED) (trainFd : Int) :
    (seats.foldl (payStep cfg i trainFd) w).Shown cfg := by
  induction seats generalizing w with
  | nil => exact shown
  | cons k rest ih =>
    obtain ⟨shown', seat'⟩ := shown_payStep shown seat trainFd k
    exact ih shown' seat'

theorem shown_pay (shown : w.Shown cfg) (seat : (w.requestP i).status = .SEAT) :
    (w.pay cfg i).Shown cfg := by
  unfold pay
  dsimp only
  split
  · exact shown_aside shown (.of_same rfl rfl rfl rfl)
  · have rewound := lseek_aside cfg w (w.recordP i).trainFd 0 false
    have status : (((w.lseek cfg (w.recordP i).trainFd 0 false).1.requestP i).status = .SEAT ∨
        ((w.lseek cfg (w.recordP i).trainFd 0 false).1.requestP i).status = .BOOKED) := by
      rw [rewound.requestP]
      exact .inl seat
    have paid := shown_payLoop (List.range SEAT_NUM) (shown_aside shown rewound) status
      (w.recordP i).trainFd
    generalize (List.range SEAT_NUM).foldl (payStep cfg i (w.recordP i).trainFd)
      (w.lseek cfg (w.recordP i).trainFd 0 false).1 = t at paid ⊢
    split
    · exact paid
    · exact shown_aside paid (.of_same rfl rfl rfl rfl)

theorem shown_handleBooked (shown : w.Shown cfg) (booked : (w.requestP i).status = .BOOKED) :
    (w.handleBooked i).Shown cfg := by
  unfold handleBooked
  split
  · exact shown_closeConn shown i
  split
  · have again := shown_setStatus (i := i) shown (.inl rfl) (shown.books i (.inr booked))
    exact shown_aside again (.of_same rfl rfl rfl rfl)
  · exact shown_closeConn (shown_aside shown (.of_same rfl rfl rfl rfl)) i

/-- The five shifts are those of the five trains. -/
theorem ownTrainNum_of_shiftIds {t : Tables} (line : (t.requestP i).buf ∈ shiftIds) :
    ∃ j : Fin TRAIN_NUM, t.ownTrainNum i = j := by
  have shifts : ∀ text ∈ shiftIds, 0 ≤ atoi text - TRAIN_ID_START ∧
      (atoi text - TRAIN_ID_START).toNat < TRAIN_NUM := by
    decide +kernel
  obtain ⟨low, high⟩ := shifts _ line
  exact ⟨⟨_, high⟩, (Int.toNat_of_nonneg low).symm⟩

variable (cfg env) in
/-- A shift selection reads the file of the train it looks up, and then binds the connection
to it, answers, or ends the connection. -/
theorem handleShift_cases (line : (w.requestP i).buf ∈ shiftIds) (looked : w.readTrainNum = j) :
    ∃ t, Aside (w.log (.train j)) t ∧
      (w.handleShift cfg env i = (((t.setRecord i
          { t.recordP i with
            shiftId := atoi (t.requestP i).buf, trainFd := cfg.trains j }).setStatus i .SEAT).sendInfo i).send i writeSeatMsg ∨
        w.handleShift cfg env i = t ∨ w.handleShift cfg env i = t.closeConn i) := by
  have index : atoi (w.requestP w.connFd).buf - TRAIN_ID_START = j := looked
  have first := occupied_aside cfg env (w.log (.train j)) 0 (cfg.trains j)
  have second := first.trans (occupied_aside cfg env _ 1 (cfg.trains j))
  have third := second.trans (occupied_aside cfg env _ 2 (cfg.trains j))
  unfold handleShift
  rw [if_neg (not_not.mpr line)]
  dsimp only
  rw [index, cfg.trainFd_train j]
  dsimp only
  split
  · exact ⟨_, (first.trans (send_aside _ i fullMsg)).trans (send_aside _ i _), .inr (.inl rfl)⟩
  split
  · exact ⟨_, second, .inl rfl⟩
  split
  · exact ⟨_, third, .inr (.inr rfl)⟩
  · exact ⟨_, third, .inr (.inl rfl)⟩

/-- A shift selection that looks its own train up binds the connection to it or to none. -/
theorem shown_handleShift (shown : w.Shown cfg) (line : (w.requestP i).buf ∈ shiftIds)
    (own : w.readTrainNum = w.ownTrainNum i) : (w.handleShift cfg env i).Shown cfg := by
  obtain ⟨j, index⟩ := ownTrainNum_of_shiftIds line
  have logged : (w.log (.train j)).Shown cfg := ⟨shown.valid, shown.books⟩
  obtain ⟨t, aside, bound | answered | closed⟩ :=
    handleShift_cases cfg env line (own.trans index)
  · have shiftId : atoi (t.requestP i).buf = TRAIN_ID_START + j := by
      rw [aside.requestP]
      have number : atoi ((w.log (.train j)).requestP i).buf - TRAIN_ID_START = j := index
      omega
    rw [bound]
    exact shown_aside (shown_bind (shown_aside logged aside) shiftId) (.of_same rfl rfl rfl rfl)
  · rw [answered]
    exact shown_aside logged aside
  · rw [closed]
    exact shown_closeConn (shown_aside logged aside) i

/-- A line that names a seat of the train or none, and its own train, keeps every binding. -/
theorem shown_handleLine (shown : w.Shown cfg) (live : w.Live cfg i) (range : w.SeatOrNone i)
    (own : w.OwnShift i) : (w.handleLine cfg env i).Shown cfg := by
  by_cases exits : (w.requestP i).buf = "exit".toList
  · unfold handleLine
    rw [if_pos exits]
    exact shown_closeConn (shown_aside shown (.of_same rfl rfl rfl rfl)) i
  cases status : (w.requestP i).status with
  | INVALID => exact absurd status (shown.valid i live)
  | SHIFT =>
    by_cases line : (w.requestP i).buf ∈ shiftIds
    · rw [handleLine_shiftLine ⟨status, line⟩]
      exact shown_handleShift shown line (own ⟨status, line⟩)
    · unfold handleLine
      rw [if_neg exits, status]
      dsimp only
      unfold handleShift
      rw [if_pos line]
      exact shown_closeConn (shown_aside shown (.of_same rfl rfl rfl rfl)) i
  | BOOKED =>
    unfold handleLine
    rw [if_neg exits, status]
    exact shown_handleBooked shown status
  | SEAT =>
    by_cases pays : (w.requestP i).buf = "pay".toList
    · unfold handleLine
      rw [if_neg exits, status]
      dsimp only
      rw [if_pos ⟨rfl, pays⟩]
      exact shown_pay shown status
    · rw [handleLine_seatLine ⟨status, exits, pays⟩]
      exact shown_handleSeat shown live.1 (range ⟨status, exits, pays⟩)

theorem shown_acceptConn (shown : w.Shown cfg) (fd : Nat) : (w.acceptConn fd).Shown cfg := by
  apply shown_slot shown fd
  · intro k other
    simp [acceptConn, send, setRequest, other]
  · simp [acceptConn, send, setRequest]
  · simp [acceptConn, send, setRequest]

theorem shown_step (shown : w.Shown cfg) (range : w.OnLine Tables.SeatOrNone action)
    (own : w.OnLine Tables.OwnShift action) (transition : w.step cfg action = some t) :
    t.Shown cfg := by
  cases (step_cases transition).2 with
  | accept free received continues => exact shown_acceptConn shown _
  | close live received ends => exact shown_closeConn shown _
  | line live received ends fine =>
    exact shown_handleLine (shown_store shown _ _) (Tables.live_store.mpr live) (range _ received)
      (own _ received)

/-- From `w` to `t` this train is looked up, and no other. -/
def LooksUp (w t : World) (train : Int) : Prop :=
  ∀ index, Access.train index ∈ t.trace.drop w.trace.length ↔ index = train

variable (cfg env) in
/-- Behind the train it looks up, a shift selection only positions train files. -/
theorem handleShift_trace (line : (w.requestP i).buf ∈ shiftIds) :
    ∃ more, (w.handleShift cfg env i).trace = w.trace ++ .train w.readTrainNum :: more ∧
      ∀ access ∈ more, ∃ fd offset, access = .seek fd offset := by
  suffices aside : ∃ more, (w.handleShift cfg env i).trace =
      (w.log (.train w.readTrainNum)).trace ++ more ∧
        ∀ access ∈ more, ∃ fd offset, access = .seek fd offset by
    obtain ⟨more, grown, seeks⟩ := aside
    exact ⟨more, by rw [grown]; simp [log], seeks⟩
  by_cases inside : 0 ≤ w.readTrainNum ∧ w.readTrainNum < TRAIN_NUM
  · obtain ⟨j, looked⟩ := exists_train inside
    obtain ⟨t, aside, bound | answered | closed⟩ := handleShift_cases cfg env line looked
    · rw [bound, looked]
      exact aside.trace
    · rw [answered, looked]
      exact aside.trace
    · rw [closed, looked]
      exact aside.trace
  · rw [handleShift_outside line inside]
    exact ⟨[], (List.append_nil _).symm, by simp⟩

variable (cfg env) in
/-- A shift selection looks up the one train it computes. -/
theorem looksUp_iff (line : (w.requestP i).buf ∈ shiftIds) (train : Int) :
    LooksUp w (w.handleShift cfg env i) train ↔ w.readTrainNum = train := by
  obtain ⟨more, trace, seeks⟩ := handleShift_trace cfg env line
  have only : ∀ index, Access.train index ∈
      (w.handleShift cfg env i).trace.drop w.trace.length ↔ index = w.readTrainNum := by
    intro index
    rw [trace, List.drop_left, List.mem_cons]
    constructor
    · rintro (same | member)
      · exact Access.train.inj same
      · obtain ⟨fd, offset, seek⟩ := seeks _ member
        cases seek
    · rintro rfl
      exact .inl rfl
  constructor
  · intro looks
    exact (looks _).mp ((only _).mpr rfl)
  · rintro rfl
    exact only

end World

/-- The client of connection `i` books on the train of the shift it sends. -/
structure World.Enters (cfg : Config) (t : World) (i : Nat) (shiftId : Int) (j : Fin TRAIN_NUM) :
    Prop where
  status : (t.requestP i).status = .SEAT
  shiftId : (t.recordP i).shiftId = shiftId
  trainFd : (t.recordP i).trainFd = cfg.trains j

/-- The seat command of a step does not reach another record, and its shift selection looks up
its own train. -/
def looksUpOwn (w : World) (action : Action) : Prop :=
  w.OnLine Tables.SeatOrNone action ∧ w.OnLine Tables.OwnShift action

instance (w : World) (action : Action) : Decidable (looksUpOwn w action) := by
  unfold looksUpOwn
  infer_instance

variable {cfg : Config} {heap : Nat → List Char} {disk : Fin TRAIN_NUM → List Char} {w : World}

theorem shown_reached (reached : (machine cfg heap disk).Reach looksUpOwn w) : w.Shown cfg := by
  apply reached.invariant (fun w => w.Shown cfg)
  · rintro w rfl
    refine ⟨fun i live => ?_, fun i inUse => by simp [World.initServer] at inUse⟩
    obtain ⟨_, connected, other⟩ := live
    simp [World.initServer, other] at connected
  · intro w action t _ shown allowed transition
    exact World.shown_step shown allowed.1 allowed.2 transition

end NTUSP.Server
