import NTUSP.Server.Settle

/-!
# What a line does to the books

A line of a client whose seat is in range does one deed, whatever calls fail: nothing, the
end of the connection, a new state, one seat chosen or cancelled, or all chosen seats paid.
A deed comes with what it did to seats. `Kept` says what deeds keep of a run: the slots of
the tables are in order, and the cells agree with the records.
-/

namespace NTUSP.Server

open NTUSP.Library CString

/-- What has happened to seat `k` of the train file `fd`. -/
inductive SeatEvent where
  | chose (fd : Int) (k : Nat)
  | cancelled (fd : Int) (k : Nat)
  | paid (fd : Int) (k : Nat)
  deriving DecidableEq

namespace Tables

/-- One turn of the payment loop. -/
def payTurn (t : Tables) (i : Nat) (fd : Int) (k : Nat) : Tables :=
  if (t.recordP i).seatStat k = .CHOSEN then
    (t.mark i k .PAID (-1) fd '1').setStatus i .BOOKED
  else t

theorem payTurn_chosen {t : Tables} {i k : Nat} {fd : Int}
    (chosen : (t.recordP i).seatStat k = .CHOSEN) :
    t.payTurn i fd k = (t.mark i k .PAID (-1) fd '1').setStatus i .BOOKED := if_pos chosen

theorem payTurn_other {t : Tables} {i k : Nat} {fd : Int}
    (other : (t.recordP i).seatStat k ≠ .CHOSEN) : t.payTurn i fd k = t := if_neg other

/-- The first turns of the payment loop. -/
def payTurns (t : Tables) (i : Nat) (fd : Int) : Nat → Tables
  | 0 => t
  | n + 1 => (t.payTurns i fd n).payTurn i fd n

theorem settle_payTurns (t : Tables) (i : Nat) (fd : Int) (n : Nat) :
    (t.payTurns i fd n).settle = t.settle.payTurns i fd n := by
  induction n with
  | zero => rfl
  | succ n ih =>
    rw [payTurns, payTurns, ← ih]
    by_cases chosen : ((t.payTurns i fd n).recordP i).seatStat n = .CHOSEN
    · have again : ((t.payTurns i fd n).settle.recordP i).seatStat n = .CHOSEN := chosen
      rw [payTurn_chosen chosen, payTurn_chosen again, ← settle_mark]
      rfl
    · have again : ((t.payTurns i fd n).settle.recordP i).seatStat n ≠ .CHOSEN := chosen
      rw [payTurn_other chosen, payTurn_other again]

/-- The seats that `pay` pays. -/
def paidSeats (t : Tables) (i : Nat) : List Nat :=
  (List.range SEAT_NUM).filter fun k => (t.recordP i).seatStat k = .CHOSEN

end Tables

/-- What the stored line of connection `i` does to seats. -/
def World.seatEvents (cfg : Config) (env : Env) (w : World) (i : Nat) : List SeatEvent :=
  let fd := (w.recordP i).trainFd
  let bookNum := atoi (w.requestP i).buf
  if w.SeatLine i then
    let called := w.addORcancel cfg i bookNum
    if called.2 = some 0 then [.cancelled fd (bookNum - 1).toNat]
    else if (called.1.checkCurr cfg env 0 i bookNum).2 = some 0 then
      [.chose fd (bookNum - 1).toNat]
    else []
  else if (w.requestP i).status = .SEAT ∧ (w.requestP i).buf = "pay".toList then
    if (w.recordP i).numOfChosenSeats = 0 then [] else (w.paidSeats i).map (.paid fd)
  else []

/-- What a line of connection `i` does to the books, and what that does to seats. -/
inductive Deed (cfg : Config) (w : World) (i : Nat) : List SeatEvent → Tables → Prop where
  | nothing : Deed cfg w i [] w.settle
  | closed : Deed cfg w i [] (w.settle.closeConn i)
  | again (booked : (w.requestP i).status = .BOOKED) :
      Deed cfg w i [] (w.settle.setStatus i .SEAT)
  | bind {j : Fin TRAIN_NUM} (shift : (w.requestP i).status = .SHIFT) :
      Deed cfg w i [] (w.settle.bind i (atoi (w.requestP i).buf) (cfg.trains j))
  | choose {k : Nat} {j : Fin TRAIN_NUM} (line : w.SeatLine i)
      (index : atoi (w.requestP i).buf - 1 = k) (bound : k < SEAT_NUM)
      (record : (w.recordP i).trainFd = cfg.trains j)
      (other : (w.recordP i).seatStat k ≠ .CHOSEN)
      (available : ∀ c, (w.files (cfg.trains j)).cell k = some c → c = '0') :
      Deed cfg w i [.chose (cfg.trains j) k] (w.settle.mark i k .CHOSEN 1 (cfg.trains j) '2')
  | cancel {k : Nat} {j : Fin TRAIN_NUM} (line : w.SeatLine i)
      (index : atoi (w.requestP i).buf - 1 = k) (bound : k < SEAT_NUM)
      (record : (w.recordP i).trainFd = cfg.trains j)
      (chosen : (w.recordP i).seatStat k = .CHOSEN) :
      Deed cfg w i [.cancelled (cfg.trains j) k]
        (w.settle.mark i k .UNKNOWN (-1) (cfg.trains j) '0')
  | pay {j : Fin TRAIN_NUM} (seat : (w.requestP i).status = .SEAT)
      (line : (w.requestP i).buf = "pay".toList)
      (record : (w.recordP i).trainFd = cfg.trains j)
      (some : (w.recordP i).numOfChosenSeats ≠ 0) :
      Deed cfg w i ((w.paidSeats i).map (.paid (cfg.trains j)))
        (w.settle.payTurns i (cfg.trains j) SEAT_NUM)

namespace World

variable {cfg : Config} {env : Env} {w : World} {i k : Nat} {j : Fin TRAIN_NUM}

/-- A train that is looked up has a descriptor. -/
theorem exists_of_trainFd {index fd : Int} (found : cfg.trainFd index = some fd) :
    ∃ j, fd = cfg.trains j := by
  unfold Config.trainFd at found
  split at found
  · exact ⟨_, (Option.some.inj found).symm⟩
  · cases found

/-- The booking of a connection on a train, with its answer. -/
theorem settle_bound (t : World) (i : Nat) (shiftId fd : Int) :
    ((((t.setRecord i { t.recordP i with shiftId := shiftId, trainFd := fd }).setStatus i
      .SEAT).sendInfo i).send i writeSeatMsg).settle = t.settle.bind i shiftId fd := rfl

/-- A shift selection binds the connection, ends it or answers. -/
theorem handleShift_deed (shift : (w.requestP i).status = .SHIFT) :
    Deed cfg w i [] (w.handleShift cfg env i).settle := by
  unfold handleShift
  dsimp only
  split
  · exact .closed
  split
  · exact .nothing
  rename_i fd found
  obtain ⟨j, rfl⟩ := exists_of_trainFd found
  have first := occupied_settle cfg env (w.log
    (.train (atoi (w.requestP w.connFd).buf - TRAIN_ID_START))) 0 (cfg.trains j)
  generalize (w.log (.train (atoi (w.requestP w.connFd).buf - TRAIN_ID_START))).occupied cfg env 0
    (cfg.trains j) = called at first ⊢
  obtain ⟨t₁, code₁⟩ := called
  have same₁ : t₁.settle = w.settle := first
  dsimp only
  split
  · exact same₁ ▸ Deed.nothing
  have second := (occupied_settle cfg env t₁ 1 (cfg.trains j)).trans same₁
  generalize t₁.occupied cfg env 1 (cfg.trains j) = called at second ⊢
  obtain ⟨t₂, code₂⟩ := called
  have same₂ : t₂.settle = w.settle := second
  dsimp only
  split
  · rw [settle_bound, same₂, Tables.requestP_of_settle same₂]
    exact .bind shift
  have third := (occupied_settle cfg env t₂ 2 (cfg.trains j)).trans same₂
  generalize t₂.occupied cfg env 2 (cfg.trains j) = called at third ⊢
  obtain ⟨t₃, code₃⟩ := called
  have same₃ : t₃.settle = w.settle := third
  dsimp only
  split
  · have closed : (t₃.closeConn i).settle = w.settle.closeConn i :=
      Tables.closeConn_of_settle same₃ i
    exact closed ▸ Deed.closed
  · exact same₃ ▸ Deed.nothing

/-- A line in `BOOKED` goes back to the seats or ends the connection. -/
theorem handleBooked_deed (booked : (w.requestP i).status = .BOOKED) :
    Deed cfg w i [] (w.handleBooked i).settle := by
  unfold handleBooked
  split
  · exact .closed
  split
  · exact .again booked
  · exact .closed

/-! ## Paying -/

/-- A turn of the payment loop, on the tables. -/
theorem payStep_tables (running : w.halt = none) (record : (w.recordP i).trainFd = cfg.trains j)
    (k : Nat) :
    (payStep cfg i (cfg.trains j) w k).toTables = w.payTurn i (cfg.trains j) k ∧
      (payStep cfg i (cfg.trains j) w k).halt = none ∧
      ((payStep cfg i (cfg.trains j) w k).recordP i).trainFd = cfg.trains j := by
  unfold payStep
  simp only [running, Option.isSome_none, Bool.false_eq_true, if_false]
  by_cases chosen : (w.recordP i).seatStat k = .CHOSEN
  · rw [if_pos chosen, Tables.payTurn_chosen chosen, storeCell_ok '1' rfl]
    refine ⟨?_, running, by simp [log, setFile, addChosen, setRecord, setStatus, setRequest,
      Record.setSeat, record]⟩
    simp [log, setFile, addChosen, setRecord, setStatus, setRequest, Tables.mark,
      Tables.setRecord, Tables.setStatus, Tables.setRequest]
    rfl
  · rw [if_neg chosen, Tables.payTurn_other chosen]
    exact ⟨rfl, running, record⟩

/-- The first turns of the payment loop, on the tables. -/
theorem payLoop_tables (running : w.halt = none)
    (record : (w.recordP i).trainFd = cfg.trains j) (n : Nat) :
    ((List.range n).foldl (payStep cfg i (cfg.trains j)) w).toTables =
        w.payTurns i (cfg.trains j) n ∧
      ((List.range n).foldl (payStep cfg i (cfg.trains j)) w).halt = none ∧
      (((List.range n).foldl (payStep cfg i (cfg.trains j)) w).recordP i).trainFd =
        cfg.trains j := by
  induction n with
  | zero => exact ⟨rfl, running, record⟩
  | succ n ih =>
    obtain ⟨tables, going, on⟩ := ih
    rw [List.range_succ, List.foldl_append]
    generalize (List.range n).foldl (payStep cfg i (cfg.trains j)) w = t at tables going on ⊢
    obtain ⟨tables', going', on'⟩ := payStep_tables going on n
    refine ⟨?_, going', on'⟩
    change (payStep cfg i (cfg.trains j) t n).toTables = _
    rw [tables', tables]
    rfl

/-- The first turns of the payment loop, on the books. -/
theorem payLoop_settle (running : w.halt = none)
    (record : (w.recordP i).trainFd = cfg.trains j) (n : Nat) :
    ((List.range n).foldl (payStep cfg i (cfg.trains j)) w).settle =
        w.settle.payTurns i (cfg.trains j) n ∧
      ((List.range n).foldl (payStep cfg i (cfg.trains j)) w).halt = none := by
  obtain ⟨tables, going, _⟩ := payLoop_tables running record n
  rw [tables]
  exact ⟨Tables.settle_payTurns .., going⟩

theorem pay_deed (running : w.halt = none) (seat : (w.requestP i).status = .SEAT)
    (line : (w.requestP i).buf = "pay".toList)
    (record : (w.recordP i).trainFd = cfg.trains j) :
    Deed cfg w i (w.seatEvents cfg env i) (w.pay cfg i).settle := by
  have other : ¬ w.SeatLine i := fun seatLine => seatLine.2.2 line
  unfold seatEvents pay
  dsimp only
  rw [if_neg other, if_pos ⟨seat, line⟩]
  split
  · exact .nothing
  · rename_i some
    rw [record]
    have rewound := lseek_settle cfg w (cfg.trains j) 0 false
    have going : (w.lseek cfg (cfg.trains j) 0 false).1.halt = none := by
      rw [lseek_halt, running]
    have on : (((w.lseek cfg (cfg.trains j) 0 false).1).recordP i).trainFd = cfg.trains j := by
      rw [(lseek_aside cfg w _ 0 false).recordP, record]
    obtain ⟨settled, still⟩ := payLoop_settle going on SEAT_NUM
    generalize (List.range SEAT_NUM).foldl (payStep cfg i (cfg.trains j))
      (w.lseek cfg (cfg.trains j) 0 false).1 = paid at settled still ⊢
    rw [still]
    have whole : paid.settle = w.settle.payTurns i (cfg.trains j) SEAT_NUM := by
      rw [settled, rewound]
    exact whole ▸ Deed.pay seat line record some

/-! ## Choosing and cancelling -/

variable (env) in
/-- A choice takes a seat that `checkCurr` finds available, and otherwise answers or ends the
connection. -/
theorem choose_settle (running : w.halt = none) (record : (w.recordP i).trainFd = cfg.trains j)
    (inside : i < cfg.maxfd) (bound : k < SEAT_NUM) {bookNum : Int} (index : bookNum - 1 = k) :
    ((w.checkCurr cfg env 0 i bookNum).2 = some 0 ∧
        (w.choose cfg env i bookNum (cfg.trains j)).settle =
          w.settle.mark i k .CHOSEN 1 (cfg.trains j) '2') ∨
      ((w.checkCurr cfg env 0 i bookNum).2 ≠ some 0 ∧
        ((w.choose cfg env i bookNum (cfg.trains j)).settle = w.settle ∨
          (w.choose cfg env i bookNum (cfg.trains j)).settle = w.settle.closeConn i)) := by
  have onTrain : ∀ {t : World}, t.settle = w.settle → (t.recordP i).trainFd = cfg.trains j := by
    intro t same
    rw [Tables.recordP_of_settle same, record]
  obtain ⟨t₁, code₁, called₁, running₁, same₁⟩ :=
    checkCurr_returns env running record 0 bookNum
  unfold choose
  rw [called₁]
  dsimp only
  by_cases available : code₁ = 0
  · refine .inl ⟨congrArg some available, ?_⟩
    rw [if_pos available]
    have taken := (take_ok (n := 0) (j := j) running₁ inside bound index).2
    rw [taken, Tables.settle_mark, same₁]
  refine .inr ⟨fun zero => available (Option.some.inj zero), ?_⟩
  rw [if_neg available]
  obtain ⟨t₂, code₂, called₂, running₂, same₂⟩ :=
    checkCurr_returns env running₁ (onTrain same₁) 1 bookNum
  have settled₂ : t₂.settle = w.settle := same₂.trans same₁
  rw [called₂]
  dsimp only
  split
  · exact .inl settled₂
  obtain ⟨t₃, code₃, called₃, running₃, same₃⟩ :=
    checkCurr_returns env running₂ (onTrain settled₂) 2 bookNum
  have settled₃ : t₃.settle = w.settle := same₃.trans settled₂
  rw [called₃]
  dsimp only
  split
  · exact .inl settled₃
  · exact .inr (Tables.closeConn_of_settle settled₃ i)

/-- A seat line in range chooses or cancels that seat, or does nothing to seats. -/
theorem handleSeat_deed (running : w.halt = none) (line : w.SeatLine i)
    (record : (w.recordP i).trainFd = cfg.trains j) (inside : i < cfg.maxfd)
    (range : 1 ≤ atoi (w.requestP i).buf ∧ atoi (w.requestP i).buf ≤ SEAT_NUM) :
    Deed cfg w i (w.seatEvents cfg env i) (w.handleSeat cfg env i).settle := by
  obtain ⟨k, index⟩ : ∃ k : Nat, atoi (w.requestP i).buf - 1 = k :=
    ⟨(atoi (w.requestP i).buf - 1).toNat, by omega⟩
  have bound : k < SEAT_NUM := by omega
  have number : (atoi (w.requestP i).buf - 1).toNat = k := by omega
  unfold seatEvents handleSeat
  dsimp only
  rw [if_pos line, addORcancel_ok inside bound index, record, number]
  dsimp only
  by_cases chosen : (w.recordP i).seatStat k = .CHOSEN
  · have again : ((w.log (.seat k)).recordP i).seatStat k = .CHOSEN := chosen
    rw [if_pos chosen, if_pos rfl, if_neg (by decide), addORcancel_ok inside bound index,
      if_pos again]
    dsimp only
    rw [if_pos rfl]
    have cancelled := (cancel_ok (w := (w.log (.seat k)).log (.seat k)) (n := 0) (j := j)
      running inside bound index).2
    rw [cancelled, Tables.settle_mark]
    exact .cancel line index bound record chosen
  · have notZero : ¬ atoi (w.requestP i).buf = 0 := by omega
    rw [if_neg chosen, if_neg (show ¬ some (1 : Int) = some 0 by decide),
      if_pos (show (1 : Int) ≠ 0 by decide), if_neg notZero]
    have fits : ∀ c, (w.files (cfg.trains j)).cell k = some c →
        ((w.log (.seat k)).files (cfg.trains j)).cell k = some c := fun _ cell => cell
    rcases choose_settle (w := w.log (.seat k)) env running record inside bound index
      with ⟨available, taken⟩ | ⟨unavailable, same | closed⟩
    · rw [if_pos available, taken]
      exact .choose line index bound record chosen fun c cell =>
        cell_of_checkCurr (w := w.log (.seat k)) record index available c (fits c cell)
    · rw [if_neg unavailable, same]
      exact .nothing
    · rw [if_neg unavailable, closed]
      exact .closed

/-- A stored line of a live connection does one deed. -/
theorem handleLine_deed (sound : w.settle.Sound cfg) (running : w.halt = none)
    (live : w.Live cfg i) (range : w.SeatInRange i) :
    Deed cfg w i (w.seatEvents cfg env i) (w.handleLine cfg env i).settle := by
  have valid := (sound.live i).mpr live
  have quiet : (w.requestP i).status ≠ .SEAT ∨ (w.requestP i).buf = "exit".toList →
      w.seatEvents cfg env i = [] := by
    intro either
    have noSeat : ¬ w.SeatLine i := fun line => either.elim (· line.1) line.2.1
    have noPay : ¬ ((w.requestP i).status = .SEAT ∧ (w.requestP i).buf = "pay".toList) := by
      rintro ⟨seat, pays⟩
      rcases either with other | exits
      · exact other seat
      · rw [exits] at pays
        exact absurd pays (by decide)
    unfold seatEvents
    dsimp only
    rw [if_neg noSeat, if_neg noPay]
  by_cases exits : (w.requestP i).buf = "exit".toList
  · unfold handleLine
    rw [if_pos exits, quiet (.inr exits)]
    exact .closed
  cases status : (w.requestP i).status with
  | INVALID => exact absurd status valid
  | SHIFT =>
    unfold handleLine
    rw [if_neg exits, status, quiet (.inl (by simp [status]))]
    exact handleShift_deed status
  | BOOKED =>
    unfold handleLine
    rw [if_neg exits, status, quiet (.inl (by simp [status]))]
    exact handleBooked_deed status
  | SEAT =>
    obtain ⟨j, record⟩ := sound.bound i (.inl status)
    by_cases pays : (w.requestP i).buf = "pay".toList
    · unfold handleLine
      rw [if_neg exits, status]
      dsimp only
      rw [if_pos ⟨rfl, pays⟩]
      exact pay_deed running status pays record
    · have line : w.SeatLine i := ⟨status, exits, pays⟩
      rw [handleLine_seatLine line]
      exact handleSeat_deed running line record live.1 (range line)

end World

/-! ## What a deed keeps -/

/-- A stored cell is the byte at its place. -/
theorem TrainFile.put_bytes {f : TrainFile} {k : Nat} (inside : 2 * k < f.bytes.length) (c : Char) :
    (f.put k c).bytes = f.bytes.set (2 * k) c := by
  simp [TrainFile.put, TrainFile.write, inside]

namespace Tables

variable {cfg : Config} {t u : Tables} {i k n : Nat} {j : Fin TRAIN_NUM} {fd : Int}

theorem payTurn_seatStat (k' : Nat) :
    ((t.payTurn i fd k).recordP i).seatStat k' =
      if k' = k ∧ (t.recordP i).seatStat k' = .CHOSEN then .PAID
      else (t.recordP i).seatStat k' := by
  by_cases chosen : (t.recordP i).seatStat k = .CHOSEN
  · rw [payTurn_chosen chosen]
    by_cases same : k' = k
    · subst same
      simp [setStatus, setRequest, mark, setRecord, Record.setSeat, chosen]
    · simp [setStatus, setRequest, mark, setRecord, Record.setSeat, same]
  · rw [payTurn_other chosen, if_neg]
    rintro ⟨rfl, again⟩
    exact chosen again

/-- The loop pays the chosen seats it has passed. -/
theorem payTurns_seatStat (k : Nat) :
    ((t.payTurns i fd n).recordP i).seatStat k =
      if k < n ∧ (t.recordP i).seatStat k = .CHOSEN then .PAID
      else (t.recordP i).seatStat k := by
  induction n with
  | zero => simp [payTurns]
  | succ n ih =>
    rw [payTurns, payTurn_seatStat, ih]
    by_cases chosen : (t.recordP i).seatStat k = .CHOSEN
    · rcases Nat.lt_trichotomy k n with before | rfl | behind
      · simp [chosen, before, Nat.lt_succ_of_lt before]
      · simp [chosen]
      · have notYet : ¬ k < n + 1 := by omega
        simp [chosen, notYet, show ¬ k < n by omega, show k ≠ n by omega]
    · simp [chosen]

/-- What paying for a seat keeps, the loop keeps. -/
theorem payTurns_keeps {α : Type} (f : Tables → α)
    (paid : ∀ (t : Tables) (k : Nat),
      f ((t.mark i k .PAID (-1) fd '1').setStatus i .BOOKED) = f t) :
    f (t.payTurns i fd n) = f t := by
  induction n with
  | zero => rfl
  | succ n ih =>
    rw [payTurns]
    unfold payTurn
    split
    · rw [paid, ih]
    · exact ih

/-- The loop touches one connection. -/
theorem payTurns_others {i' : Nat} (other : i' ≠ i) :
    (t.payTurns i fd n).requestP i' = t.requestP i' ∧
      (t.payTurns i fd n).recordP i' = t.recordP i' := by
  constructor
  · apply payTurns_keeps fun t => t.requestP i'
    simp [setStatus, setRequest, mark, setRecord, other]
  · apply payTurns_keeps fun t => t.recordP i'
    simp [setStatus, setRequest, mark, setRecord, other]

/-- The loop keeps the line and the train of the connection. -/
theorem payTurns_same :
    ((t.payTurns i fd n).requestP i).buf = (t.requestP i).buf ∧
      ((t.payTurns i fd n).recordP i).trainFd = (t.recordP i).trainFd := by
  constructor
  · apply payTurns_keeps fun t => (t.requestP i).buf
    simp [setStatus, setRequest, mark, setRecord]
  · apply payTurns_keeps fun t => (t.recordP i).trainFd
    simp [setStatus, setRequest, mark, setRecord, Record.setSeat]

/-- A connection that had a chosen seat is in `BOOKED`. -/
theorem payTurns_status (chosen : (t.recordP i).seatStat k = .CHOSEN) (passed : k < n) :
    ((t.payTurns i fd n).requestP i).status = .BOOKED := by
  induction n with
  | zero => cases passed
  | succ n ih =>
    rw [payTurns]
    by_cases now : ((t.payTurns i fd n).recordP i).seatStat n = .CHOSEN
    · rw [payTurn_chosen now]
      simp [setStatus, setRequest]
    · rw [payTurn_other now]
      apply ih
      by_contra notBefore
      have last : k = n := by omega
      subst last
      rw [payTurns_seatStat, if_neg (by omega)] at now
      exact now chosen

/-- The loop writes one train file. -/
theorem payTurns_elsewhere {fd' : Int} (other : fd' ≠ fd) :
    (t.payTurns i fd n).files fd' = t.files fd' := by
  apply payTurns_keeps fun t => t.files fd'
  simp [setStatus, setRequest, mark, setRecord, other]

/-- A turn of the loop stores `'1'` for a chosen seat. -/
theorem payTurn_bytes
    (inside : (t.recordP i).seatStat k = .CHOSEN → 2 * k < (t.files fd).bytes.length) :
    ((t.payTurn i fd k).files fd).bytes =
      if (t.recordP i).seatStat k = .CHOSEN then (t.files fd).bytes.set (2 * k) '1'
      else (t.files fd).bytes := by
  by_cases chosen : (t.recordP i).seatStat k = .CHOSEN
  · rw [payTurn_chosen chosen, if_pos chosen, ← TrainFile.put_bytes (inside chosen)]
    simp [setStatus, setRequest, mark, setRecord]
  · rw [payTurn_other chosen, if_neg chosen]

/-- The turn for a seat finds it as it was before the loop. -/
theorem payTurns_next :
    ((t.payTurns i fd n).recordP i).seatStat n = (t.recordP i).seatStat n := by
  rw [payTurns_seatStat, if_neg (by omega)]

/-- The loop stores `'1'` for chosen seats and changes no other byte. -/
theorem payTurns_bytes
    (inside : ∀ k < n, (t.recordP i).seatStat k = .CHOSEN → 2 * k < (t.files fd).bytes.length) :
    ((t.payTurns i fd n).files fd).bytes.length = (t.files fd).bytes.length ∧
      ∀ p, ((t.payTurns i fd n).files fd).bytes[p]? = (t.files fd).bytes[p]? ∨
        ∃ k < n, p = 2 * k ∧ (t.recordP i).seatStat k = .CHOSEN ∧
          ((t.payTurns i fd n).files fd).bytes[p]? = some '1' := by
  induction n with
  | zero => exact ⟨rfl, fun p => .inl rfl⟩
  | succ n ih =>
    obtain ⟨length, bytes⟩ := ih fun k bound => inside k (by omega)
    have here : ((t.payTurns i fd n).recordP i).seatStat n = .CHOSEN →
        2 * n < ((t.payTurns i fd n).files fd).bytes.length := by
      rw [payTurns_next, length]
      exact inside n (by omega)
    rw [payTurns, payTurn_bytes here]
    by_cases chosen : ((t.payTurns i fd n).recordP i).seatStat n = .CHOSEN
    · rw [if_pos chosen, List.length_set]
      refine ⟨length, fun p => ?_⟩
      by_cases place : p = 2 * n
      · subst place
        exact .inr ⟨n, by omega, rfl, payTurns_next.symm.trans chosen, by simp [here chosen]⟩
      · rw [List.getElem?_set_ne (Ne.symm place)]
        rcases bytes p with same | ⟨k, bound, place, chosen, one⟩
        · exact .inl same
        · exact .inr ⟨k, by omega, place, chosen, one⟩
    · rw [if_neg chosen]
      refine ⟨length, fun p => ?_⟩
      rcases bytes p with same | ⟨k, bound, place, chosen, one⟩
      · exact .inl same
      · exact .inr ⟨k, by omega, place, chosen, one⟩

/-- The loop sells every chosen seat. -/
theorem payTurns_sold
    (inside : ∀ k < n, (t.recordP i).seatStat k = .CHOSEN → 2 * k < (t.files fd).bytes.length)
    (bound : k < n) (chosen : (t.recordP i).seatStat k = .CHOSEN) :
    ((t.payTurns i fd n).files fd).bytes[2 * k]? = some '1' := by
  induction n with
  | zero => omega
  | succ n ih =>
    have within : ∀ k < n, (t.recordP i).seatStat k = .CHOSEN →
        2 * k < (t.files fd).bytes.length := fun k bound => inside k (by omega)
    have here : ((t.payTurns i fd n).recordP i).seatStat n = .CHOSEN →
        2 * n < ((t.payTurns i fd n).files fd).bytes.length := by
      rw [payTurns_next, (payTurns_bytes within).1]
      exact inside n (by omega)
    rw [payTurns, payTurn_bytes here]
    by_cases last : k = n
    · subst last
      have now : ((t.payTurns i fd k).recordP i).seatStat k = .CHOSEN :=
        payTurns_next.trans chosen
      rw [if_pos now]
      exact List.getElem?_set_self (here now)
    · have earlier := ih within (by omega)
      split
      · rw [List.getElem?_set_ne (by omega)]
        exact earlier
      · exact earlier

/-- The loop is a run of payments. -/
theorem payTurns_effects (status : (t.requestP i).status = .SEAT ∨ (t.requestP i).status = .BOOKED)
    (record : (t.recordP i).trainFd = cfg.trains j) (bound : n ≤ SEAT_NUM) :
    Effects cfg t (t.payTurns i (cfg.trains j) n) ∧
      (((t.payTurns i (cfg.trains j) n).requestP i).status = .SEAT ∨
        ((t.payTurns i (cfg.trains j) n).requestP i).status = .BOOKED) := by
  induction n with
  | zero => exact ⟨.refl, status⟩
  | succ n ih =>
    obtain ⟨effects, status⟩ := ih (by omega)
    rw [payTurns]
    by_cases chosen : ((t.payTurns i (cfg.trains j) n).recordP i).seatStat n = .CHOSEN
    · rw [payTurn_chosen chosen]
      refine ⟨effects.tail (.pay status ?_ (by omega) chosen), .inr (by simp [setStatus,
        setRequest])⟩
      rw [payTurns_same.2, record]
    · rw [payTurn_other chosen]
      exact ⟨effects, status⟩

end Tables
end NTUSP.Server
