import NTUSP.Server.Payment

/-!
# What a line does, as its connection sees it

In `SEAT` and `BOOKED` a line is answered from the request and the record of its connection
and the cell of its seat, and it changes that request, that record and cells of one train
file. `react` is that answer without the calls that compute it, and `handleLine` gives the
same, whatever calls fail.
-/

namespace NTUSP.Server

open NTUSP.Library CString

/-- The file behind some stored cells. -/
def TrainFile.stores (f : TrainFile) (cells : List (Nat × Char)) : TrainFile :=
  cells.foldl (fun f cell => f.put cell.1 cell.2) f

/-- What a line leaves of its connection, and the cells it stores. -/
structure Edit where
  request : Request
  record : Record
  cells : List (Nat × Char)

namespace Edit

/-- Nothing changes. -/
def same (q : Request) (r : Record) : Edit := { request := q, record := r, cells := [] }

/-- The connection ends. -/
def ended : Edit := { request := freeRequest, record := initRecord, cells := [] }

/-- One seat changes with its cell. -/
def mark (q : Request) (r : Record) (k : Nat) (seat : Seat) (change : Int) (c : Char) : Edit where
  request := q
  record := { r.setSeat k seat with numOfChosenSeats := r.numOfChosenSeats + change }
  cells := [(k, c)]

/-- One turn of the payment loop. -/
def payTurn (e : Edit) (k : Nat) : Edit :=
  if e.record.seatStat k = .CHOSEN then
    { request := { e.request with status := .BOOKED }
      record :=
        { e.record.setSeat k .PAID with numOfChosenSeats := e.record.numOfChosenSeats + -1 }
      cells := e.cells ++ [(k, '1')] }
  else e

/-- The first turns of the payment loop. -/
def payTurns (e : Edit) : Nat → Edit
  | 0 => e
  | n + 1 => (e.payTurns n).payTurn n

end Edit

/-- The answer to a choice of a seat: the codes are those that the calls of `checkCurr` return. -/
def reactChoose (q : Request) (r : Record) (k : Nat) (code : Nat → Int) : Edit × List (List Char) :=
  if code 0 = 0 then
    let chosen := Edit.mark q r k .CHOSEN 1 '2'
    (chosen, [printTrainInfo chosen.record, writeSeatMsg])
  else if code 1 = 1 then (.same q r, [seatBookedMsg, writeSeatMsg])
  else if code 2 = 2 then (.same q r, [lockMsg, writeSeatMsg])
  else (.ended, [])

def reactCancel (q : Request) (r : Record) (k : Nat) : Edit × List (List Char) :=
  let cancelled := Edit.mark q r k .UNKNOWN (-1) '0'
  (cancelled, [cancelMsg, printTrainInfo cancelled.record, writeSeatMsg])

def reactPay (q : Request) (r : Record) : Edit × List (List Char) :=
  if r.numOfChosenSeats = 0 then (.same q r, [noSeatMsg, printTrainInfo r, writeSeatMsg])
  else
    let paid := (Edit.same q r).payTurns SEAT_NUM
    (paid, [bookSuccMsg, printTrainInfo paid.record, writeSeatOrExitMsg])

/-- What a line in `SEAT` or `BOOKED` leaves, and the messages to its client. -/
def react (q : Request) (r : Record) (code : Nat → Int) : Edit × List (List Char) :=
  if q.buf = "exit".toList then (.ended, [exitMsg])
  else if q.status = .BOOKED then
    if q.buf = "seat".toList then
      (.same { q with status := .SEAT } r, [printTrainInfo r, writeSeatMsg])
    else (.ended, [invalidOpMsg])
  else if q.buf = "pay".toList then reactPay q r
  else if atoi q.buf = 0 then (.ended, [invalidOpMsg])
  else
    let k := (atoi q.buf - 1).toNat
    if r.seatStat k = .CHOSEN then reactCancel q r k else reactChoose q r k code

namespace Tables

/-- The tables behind an edit of connection `i` on the file `fd`. -/
def edit (t : Tables) (i : Nat) (fd : Int) (e : Edit) : Tables :=
  { t with
    requestP := Function.update t.requestP i e.request
    recordP := Function.update t.recordP i e.record
    files := Function.update t.files fd ((t.files fd).stores e.cells) }

/-- What the line of connection `i`, which is on train `j`, leaves and is answered. -/
def reaction (cfg : Config) (env : Env) (t : Tables) (i : Nat) (j : Fin TRAIN_NUM) :
    Edit × List (List Char) :=
  react (t.requestP i) (t.recordP i) (t.code cfg env j (atoi (t.requestP i).buf - 1).toNat)

variable {t : Tables} {i k : Nat} {fd : Int} {e : Edit}

theorem edit_same : t.edit i fd (.same (t.requestP i) (t.recordP i)) = t := by
  simp [edit, Edit.same, TrainFile.stores]

theorem edit_ended : t.edit i fd .ended = t.closeConn i := by
  simp [edit, Edit.ended, TrainFile.stores, closeConn, setRequest, setRecord]

theorem edit_mark {seat : Seat} {change : Int} {c : Char} :
    t.edit i fd (.mark (t.requestP i) (t.recordP i) k seat change c) =
      t.mark i k seat change fd c := by
  simp [edit, Edit.mark, TrainFile.stores, mark, setRecord]

theorem edit_payTurn : (t.edit i fd e).payTurn i fd k = t.edit i fd (e.payTurn k) := by
  unfold payTurn Edit.payTurn
  by_cases chosen : e.record.seatStat k = .CHOSEN
  · have here : ((t.edit i fd e).recordP i).seatStat k = .CHOSEN := by simp [edit, chosen]
    rw [if_pos here, if_pos chosen]
    simp [edit, mark, setStatus, setRequest, setRecord, TrainFile.stores]
  · have here : ((t.edit i fd e).recordP i).seatStat k ≠ .CHOSEN := by simp [edit, chosen]
    rw [if_neg here, if_neg chosen]

theorem edit_payTurns (n : Nat) :
    t.edit i fd ((Edit.same (t.requestP i) (t.recordP i)).payTurns n) = t.payTurns i fd n := by
  induction n with
  | zero => exact edit_same
  | succ n ih =>
    rw [payTurns, ← ih, edit_payTurn]
    rfl

end Tables

/-! ## The calls behind it -/

namespace World

variable {cfg : Config} {env : Env} {w t : World} {i k : Nat} {j : Fin TRAIN_NUM}

/-- From `w` to `t` an edit was made for connection `i`, and its client was told. -/
structure Did (w t : World) (i : Nat) (fd : Int) (answer : Edit × List (List Char)) : Prop where
  books : t.settle = w.settle.edit i fd answer.1
  sent : t.sent = w.sent ++ answer.2.map fun text => ((w.requestP i).connFd, text)
  halt : t.halt = none

variable (cfg env) in
theorem checkCurr_sent (w : World) (i call : Nat) (checkNum : Int) :
    (w.checkCurr cfg env call i checkNum).1.sent = w.sent := by
  have locked : ((w.lseek cfg (w.recordP i).trainFd 0 (env.fails .checkRewind call)).1.setLock cfg
      (w.recordP i).trainFd true).sent = w.sent := (setLock_sent _ _ true).trans (lseek_sent w _ _ _)
  unfold checkCurr
  dsimp only
  generalize (w.lseek cfg (w.recordP i).trainFd 0 (env.fails .checkRewind call)).1.setLock cfg
    (w.recordP i).trainFd true = t at locked ⊢
  split
  · exact locked
  · have sought : (t.lseek cfg (w.recordP i).trainFd (seatOffset (checkNum - 1))
        (env.fails .checkSeek call)).1.sent = w.sent := (lseek_sent t _ _ _).trans locked
    split
    · exact sought
    split
    · exact sought
    · rw [setLock_sent, lseek_sent]
      exact sought

variable (env) in
/-- A call of `checkCurr` on a seat of a train. -/
theorem checkCurr_did (running : w.halt = none) (record : (w.recordP i).trainFd = cfg.trains j)
    {checkNum : Int} (index : checkNum - 1 = k) (call : Nat) :
    ∃ t, w.checkCurr cfg env call i checkNum = (t, some (w.code cfg env j k call)) ∧
      t.halt = none ∧ t.settle = w.settle ∧ t.sent = w.sent := by
  obtain ⟨t, code, called, going, settled⟩ := checkCurr_returns env running record call checkNum
  have found := checkCurr_found env running record index call
  have sent := checkCurr_sent cfg env w i call checkNum
  rw [called] at found sent
  obtain rfl := Option.some.inj found
  exact ⟨t, called, going, settled, sent⟩

/-- The calls see the books only. -/
theorem code_of_settle (same : t.settle = w.settle) (call : Nat) :
    t.code cfg env j k call = w.code cfg env j k call := by
  have cell : t.seatByte cfg j k = w.seatByte cfg j k := by
    unfold Tables.seatByte TrainFile.cell
    rw [Tables.bytes_of_settle same]
  unfold Tables.code
  rw [cell]

/-- The record entry and the cell of a seat change together, and nobody is told. -/
theorem marked_tables (running : w.halt = none) (inside : i < cfg.maxfd) (bound : k < SEAT_NUM)
    (seat : Seat) (change : Int) (c : Char) {marked : World}
    (stored : marked =
      ((w.setSeatStat cfg i k seat).addChosen i change).storeCell cfg (cfg.trains j) k c) :
    marked.toTables = w.toTables.mark i k seat change (cfg.trains j) c ∧
      marked.sent = w.sent ∧ marked.halt = none := by
  obtain ⟨went, tables⟩ := mark_ok (j := j) (n := 0) w inside bound seat change c
  subst stored
  refine ⟨tables, ?_, went.halt.trans running⟩
  rw [storeCell_sent, setSeatStat_ok inside bound]
  rfl

theorem take_did (running : w.halt = none) (inside : i < cfg.maxfd) (bound : k < SEAT_NUM)
    {bookNum : Int} (index : bookNum - 1 = k) :
    Did w (w.take cfg i bookNum (cfg.trains j)) i (cfg.trains j)
      (Edit.mark (w.requestP i) (w.recordP i) k .CHOSEN 1 '2',
        [printTrainInfo (Edit.mark (w.requestP i) (w.recordP i) k .CHOSEN 1 '2').record,
          writeSeatMsg]) := by
  unfold take
  dsimp only
  rw [index, setSeatStat_halt inside bound, running]
  simp only [Option.isSome_none, Bool.false_eq_true, if_false]
  generalize stored :
    ((w.setSeatStat cfg i k .CHOSEN).addChosen i 1).storeCell cfg (cfg.trains j) k '2' = marked
  obtain ⟨tables, sent, halt⟩ :=
    marked_tables (j := j) running inside bound .CHOSEN 1 '2' stored.symm
  rw [halt]
  refine ⟨?_, ?_, halt⟩
  · change marked.settle = w.settle.edit i _ (.mark (w.settle.requestP i) (w.settle.recordP i) ..)
    rw [tables, Tables.settle_mark, Tables.edit_mark]
  · simp [send, sendInfo, tables, sent, Tables.mark, Tables.setRecord, Edit.mark]

theorem cancel_did (running : w.halt = none) (inside : i < cfg.maxfd) (bound : k < SEAT_NUM)
    {bookNum : Int} (index : bookNum - 1 = k) :
    Did w (w.cancel cfg i bookNum (cfg.trains j)) i (cfg.trains j)
      (reactCancel (w.requestP i) (w.recordP i) k) := by
  unfold cancel
  dsimp only
  rw [index, setSeatStat_halt inside bound, running]
  simp only [Option.isSome_none, Bool.false_eq_true, if_false]
  generalize stored :
    ((w.setSeatStat cfg i k .UNKNOWN).addChosen i (-1)).storeCell cfg (cfg.trains j) k '0' = marked
  obtain ⟨tables, sent, halt⟩ :=
    marked_tables (j := j) running inside bound .UNKNOWN (-1) '0' stored.symm
  rw [halt]
  refine ⟨?_, ?_, halt⟩
  · change marked.settle = w.settle.edit i _ (.mark (w.settle.requestP i) (w.settle.recordP i) ..)
    rw [tables, Tables.settle_mark, Tables.edit_mark]
  · simp [send, sendInfo, tables, sent, Tables.mark, Tables.setRecord, Edit.mark, reactCancel]

/-- What `w` did not change and did not say does not matter. -/
theorem Did.of_same {w₁ : World} {fd : Int} {answer : Edit × List (List Char)}
    (did : Did w₁ t i fd answer) (same : w₁.settle = w.settle) (sent : w₁.sent = w.sent) :
    Did w t i fd answer where
  books := by rw [did.books, same]
  sent := by rw [did.sent, sent, Tables.requestP_of_settle same]
  halt := did.halt

/-- Messages, and nothing else. -/
theorem did_send (running : w.halt = none) {fd : Int} {texts : List (List Char)}
    (books : t.settle = w.settle) (halt : t.halt = w.halt)
    (sent : t.sent = w.sent ++ texts.map fun text => ((w.requestP i).connFd, text)) :
    Did w t i fd (.same (w.requestP i) (w.recordP i), texts) where
  books := books.trans Tables.edit_same.symm
  sent := sent
  halt := halt.trans running

theorem did_close (running : w.halt = none) {fd : Int} {texts : List (List Char)}
    (books : t.settle = w.settle.closeConn i) (halt : t.halt = w.halt)
    (sent : t.sent = w.sent ++ texts.map fun text => ((w.requestP i).connFd, text)) :
    Did w t i fd (.ended, texts) where
  books := books.trans Tables.edit_ended.symm
  sent := sent
  halt := halt.trans running

theorem choose_did (running : w.halt = none) (record : (w.recordP i).trainFd = cfg.trains j)
    (inside : i < cfg.maxfd) (bound : k < SEAT_NUM) {bookNum : Int} (index : bookNum - 1 = k) :
    Did w (w.choose cfg env i bookNum (cfg.trains j)) i (cfg.trains j)
      (reactChoose (w.requestP i) (w.recordP i) k (w.code cfg env j k)) := by
  have onTrain : ∀ {t : World}, t.settle = w.settle → (t.recordP i).trainFd = cfg.trains j := by
    intro t same
    rw [Tables.recordP_of_settle same, record]
  obtain ⟨t₁, called₁, running₁, settled₁, sent₁⟩ := checkCurr_did env running record index 0
  unfold choose reactChoose
  rw [called₁]
  dsimp only
  split
  · have did := (take_did (j := j) running₁ inside bound index).of_same settled₁ sent₁
    rwa [Tables.requestP_of_settle settled₁, Tables.recordP_of_settle settled₁] at did
  obtain ⟨t₂, called₂, running₂, same₂, quiet₂⟩ :=
    checkCurr_did env running₁ (onTrain settled₁) index 1
  have settled₂ := same₂.trans settled₁
  have sent₂ := quiet₂.trans sent₁
  rw [called₂, code_of_settle settled₁]
  dsimp only
  split
  · refine did_send running settled₂ (running₂.trans running.symm) ?_
    simp [send, sent₂, Tables.requestP_of_settle settled₂]
  obtain ⟨t₃, called₃, running₃, same₃, quiet₃⟩ :=
    checkCurr_did env running₂ (onTrain settled₂) index 2
  have settled₃ := same₃.trans settled₂
  have sent₃ := quiet₃.trans sent₂
  rw [called₃, code_of_settle settled₂]
  dsimp only
  split
  · refine did_send running settled₃ (running₃.trans running.symm) ?_
    simp [send, sent₃, Tables.requestP_of_settle settled₃]
  · refine did_close running (Tables.closeConn_of_settle settled₃ i)
      (running₃.trans running.symm) ?_
    simp [closeConn, setRequest, setRecord, sent₃]

theorem settle_payTurns_edit (w : World) {fd : Int} (n : Nat) :
    w.settle.payTurns i fd n =
      w.settle.edit i fd ((Edit.same (w.requestP i) (w.recordP i)).payTurns n) :=
  (Tables.edit_payTurns (t := w.settle) n).symm

theorem pay_did (running : w.halt = none) (record : (w.recordP i).trainFd = cfg.trains j) :
    Did w (w.pay cfg i) i (cfg.trains j) (reactPay (w.requestP i) (w.recordP i)) := by
  unfold pay reactPay
  split
  · exact did_send running rfl rfl (by simp [send, sendInfo])
  dsimp only
  rw [record]
  have going : (w.lseek cfg (cfg.trains j) 0 false).1.halt = none := by
    rw [lseek_halt, running]
  have on : (((w.lseek cfg (cfg.trains j) 0 false).1).recordP i).trainFd = cfg.trains j := by
    rw [(lseek_aside cfg w _ 0 false).recordP, record]
  obtain ⟨settled, still⟩ := payLoop_settle going on SEAT_NUM
  have quiet : ((List.range SEAT_NUM).foldl (payStep cfg i (cfg.trains j))
      (w.lseek cfg (cfg.trains j) 0 false).1).sent = w.sent :=
    (payLoop_sent _ (cfg.trains j) (List.range SEAT_NUM)).trans (lseek_sent w (cfg.trains j) 0 false)
  generalize (List.range SEAT_NUM).foldl (payStep cfg i (cfg.trains j))
    (w.lseek cfg (cfg.trains j) 0 false).1 = paid at settled still quiet ⊢
  rw [lseek_settle] at settled
  rw [still]
  have books : paid.settle = w.settle.edit i (cfg.trains j)
      ((Edit.same (w.requestP i) (w.recordP i)).payTurns SEAT_NUM) :=
    settled.trans (settle_payTurns_edit w SEAT_NUM)
  have paidRecord : paid.recordP i =
      ((Edit.same (w.requestP i) (w.recordP i)).payTurns SEAT_NUM).record := by
    have same := congrArg (fun t => t.recordP i) books
    simpa [Tables.edit] using same
  have conn : (paid.requestP i).connFd = (w.requestP i).connFd := by
    have same : paid.requestP = (w.settle.payTurns i (cfg.trains j) SEAT_NUM).requestP :=
      congrArg (fun t => t.requestP) settled
    rw [same, Tables.payTurns_connFd, Tables.settle_requestP]
  generalize (Edit.same (w.requestP i) (w.recordP i)).payTurns SEAT_NUM = edited
    at books paidRecord ⊢
  exact ⟨books, by simp [send, sendInfo, quiet, paidRecord, conn], still⟩

/-- A cell before the start of the file ends the process. -/
theorem storeCell_before (w : World) (trainFd : Int) {index : Int} (before : seatOffset index < 0)
    (c : Char) : w.storeCell cfg trainFd index c =
      (w.log (.seek trainFd (seatOffset index))).stop .errExit := by
  have fails : w.lseek cfg trainFd (seatOffset index) false =
      (w.log (.seek trainFd (seatOffset index)), false) := by
    unfold lseek
    dsimp only
    rw [if_pos (by simp [before])]
  unfold storeCell
  rw [fails]
  rfl

/-- The cancellation of seat 0 sets the counter, and positions the file before its start. -/
theorem cancel_zero (w : World) (inside : i < cfg.maxfd) (running : w.halt = none) (trainFd : Int) :
    (w.cancel cfg i 0 trainFd).halt = some .errExit ∧
      (w.cancel cfg i 0 trainFd).sent = w.sent ∧
      (w.cancel cfg i 0 trainFd).toTables =
        w.toTables.setRecord i { w.recordP i with numOfChosenSeats := -1 } := by
  have cleared : w.setSeatStat cfg i (-1) .UNKNOWN =
      (w.log (.seat (-1))).setRecord i { w.recordP i with numOfChosenSeats := 0 } :=
    setSeatStat_counter inside .UNKNOWN
  have going : ((w.log (.seat (-1))).setRecord i
      { w.recordP i with numOfChosenSeats := 0 }).halt = none := running
  unfold cancel
  dsimp only
  rw [show (0 : Int) - 1 = -1 from rfl, cleared, going, if_neg (by simp),
    storeCell_before _ trainFd (by decide) '0', if_pos (by simp [stop])]
  refine ⟨rfl, rfl, ?_⟩
  simp [stop, log, addChosen, setRecord, Tables.setRecord]

end World

namespace Tables

/-- A seat command that is no number, of a connection with one chosen seat. It finds that the
seat before the first is chosen, which is the counter. -/
def Slips (t : Tables) (i : Nat) : Prop :=
  t.SeatLine i ∧ atoi (t.requestP i).buf = 0 ∧ (t.recordP i).numOfChosenSeats = 1

end Tables

namespace World

variable {cfg : Config} {env : Env} {w : World} {i : Nat} {j : Fin TRAIN_NUM}

theorem handleSeat_did (running : w.halt = none) (line : w.SeatLine i)
    (record : (w.recordP i).trainFd = cfg.trains j) (inside : i < cfg.maxfd)
    (range : w.SeatOrNone i) (kept : ¬ w.Slips i) :
    Did w (w.handleSeat cfg env i) i (cfg.trains j) (w.reaction cfg env i j) := by
  obtain ⟨low, high⟩ := range line
  obtain ⟨seat, exits, pays⟩ := line
  have booked : (w.requestP i).status ≠ .BOOKED := by simp [seat]
  unfold handleSeat Tables.reaction react
  rw [if_neg exits, if_neg booked, if_neg pays]
  dsimp only
  by_cases none : atoi (w.requestP i).buf = 0
  · have other : (w.recordP i).numOfChosenSeats ≠ 1 :=
      fun one => kept ⟨⟨seat, exits, pays⟩, none, one⟩
    rw [none, addORcancel_zero w inside, if_neg other, if_pos rfl]
    dsimp only
    rw [if_pos (by decide), if_pos rfl]
    exact did_close running rfl rfl (by simp [send, closeConn, setRequest, setRecord, log])
  obtain ⟨k, index⟩ : ∃ k : Nat, atoi (w.requestP i).buf - 1 = k :=
    ⟨(atoi (w.requestP i).buf - 1).toNat, by omega⟩
  have bound : k < SEAT_NUM := by omega
  have number : (atoi (w.requestP i).buf - 1).toNat = k := by omega
  rw [if_neg none, addORcancel_ok inside bound index, record, number]
  dsimp only
  by_cases chosen : (w.recordP i).seatStat k = .CHOSEN
  · have again : ((w.log (.seat k)).recordP i).seatStat k = .CHOSEN := chosen
    rw [if_pos chosen, if_pos chosen, if_neg (by decide), addORcancel_ok inside bound index,
      if_pos again]
    dsimp only
    rw [if_pos rfl]
    exact (cancel_did (w := (w.log (.seat k)).log (.seat k)) running inside bound index).of_same
      rfl rfl
  · rw [if_neg chosen, if_neg chosen, if_pos (show (1 : Int) ≠ 0 by decide), if_neg none]
    exact (choose_did (w := w.log (.seat k)) running record inside bound index).of_same rfl rfl

/-- A command that slips ends the process and answers nothing. -/
theorem handleSeat_slips (env : Env) (running : w.halt = none) (slips : w.Slips i)
    (inside : i < cfg.maxfd) :
    (w.handleSeat cfg env i).halt = some .errExit ∧ (w.handleSeat cfg env i).sent = w.sent ∧
      (w.handleSeat cfg env i).toTables =
        w.toTables.setRecord i { w.recordP i with numOfChosenSeats := -1 } := by
  obtain ⟨_, none, one⟩ := slips
  have again : ((w.log (.seat (-1))).recordP i).numOfChosenSeats = 1 := one
  unfold handleSeat
  dsimp only
  rw [none, addORcancel_zero w inside, if_pos one]
  dsimp only
  rw [if_neg (by decide), addORcancel_zero _ inside, if_pos again]
  dsimp only
  rw [if_pos rfl]
  exact cancel_zero ((w.log (.seat (-1))).log (.seat (-1))) inside running _

/-- A line in `SEAT` or `BOOKED` is answered as `react` says. -/
theorem handleLine_did (running : w.halt = none) (inside : i < cfg.maxfd)
    (status : (w.requestP i).status = .SEAT ∨ (w.requestP i).status = .BOOKED)
    (record : (w.recordP i).trainFd = cfg.trains j) (range : w.SeatOrNone i)
    (kept : ¬ w.Slips i) :
    Did w (w.handleLine cfg env i) i (cfg.trains j) (w.reaction cfg env i j) := by
  by_cases exits : (w.requestP i).buf = "exit".toList
  · unfold handleLine Tables.reaction react
    rw [if_pos exits, if_pos exits]
    exact did_close running rfl rfl (by simp [send, closeConn, setRequest, setRecord])
  rcases status with seat | booked
  · by_cases pays : (w.requestP i).buf = "pay".toList
    · have notBooked : (w.requestP i).status ≠ .BOOKED := by simp [seat]
      rw [handleLine_pay seat pays]
      unfold Tables.reaction react
      rw [if_neg exits, if_neg notBooked, if_pos pays]
      exact pay_did running record
    · rw [handleLine_seatLine ⟨seat, exits, pays⟩]
      exact handleSeat_did running ⟨seat, exits, pays⟩ record inside range kept
  · unfold handleLine Tables.reaction react
    rw [if_neg exits, if_neg exits, if_pos booked, booked]
    dsimp only
    unfold handleBooked
    rw [if_neg exits]
    split
    · refine ⟨?_, by simp [send, sendInfo, setStatus, setRequest], running⟩
      change w.settle.setStatus i .SEAT = _
      simp [Tables.setStatus, Tables.setRequest, Tables.edit, Edit.same, TrainFile.stores]
    · exact did_close running rfl rfl (by simp [send, closeConn, setRequest, setRecord])

end World

end NTUSP.Server
