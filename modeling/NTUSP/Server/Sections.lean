import NTUSP.Server.Books

/-!
# A line in sections

Two servers on the same train files are kept apart by the record locks of `fcntl`, which
cover one read or one write each. Here the handling of a line is cut where another process
may come in between: before each `lock_file`, with the rewinding around it, and before a
record changes behind a read. `Phase` says what a process does next. Cut up and run without
interruption, the handling of a line is `handleLine`.
-/

namespace NTUSP.Server

open NTUSP.Library CString

/-- Where a process is in `main`: between two requests, or at the next part of one. The calls of
`occupied` and `checkCurr` are numbered as in the model of `main`. -/
inductive Phase where
  | idle
  | occupied (i : Nat) (env : Env) (call : Nat) (fd : Int)
  | checkCurr (i : Nat) (env : Env) (call : Nat) (bookNum trainFd : Int)
  | take (i : Nat) (bookNum trainFd : Int)
  | takeStore (i : Nat) (bookNum trainFd : Int)
  | cancelStore (i : Nat) (bookNum trainFd : Int)
  | pay (i : Nat) (trainFd : Int) (j : Nat)
  | payStore (i : Nat) (trainFd : Int) (j : Nat)
  deriving DecidableEq

namespace World

/-! ## Up to the first section -/

/-- `handleShift`. -/
def beginShift (cfg : Config) (env : Env) (w : World) (i : Nat) : World × Phase :=
  if (w.requestP i).buf ∉ shiftIds then ((w.send i invalidOpMsg).closeConn i, .idle)
  else
    let readTrainNum := atoi (w.requestP w.connFd).buf - TRAIN_ID_START
    let w := w.log (.train readTrainNum)
    match cfg.trainFd readTrainNum with
    | none => (w.stop .outOfBounds, .idle)
    | some fd => (w, .occupied i env 0 fd)

/-- `pay`. -/
def beginPay (cfg : Config) (w : World) (i : Nat) : World × Phase :=
  if (w.recordP i).numOfChosenSeats = 0 then
    (((w.send i noSeatMsg).sendInfo i).send i writeSeatMsg, .idle)
  else
    let trainFd := (w.recordP i).trainFd
    ((w.lseek cfg trainFd 0 false).1, .pay i trainFd 0)

/-- `cancel`: the record changes before the file. -/
def beginCancel (cfg : Config) (w : World) (i : Nat) (bookNum trainFd : Int) : World × Phase :=
  let w := w.setSeatStat cfg i (bookNum - 1) .UNKNOWN
  if w.halt.isSome then (w, .idle) else (w.addChosen i (-1), .cancelStore i bookNum trainFd)

/-- `handleSeat`. -/
def beginSeat (cfg : Config) (env : Env) (w : World) (i : Nat) : World × Phase :=
  let bookNum := atoi (w.requestP i).buf
  let trainFd := (w.recordP i).trainFd
  match w.addORcancel cfg i bookNum with
  | (w, none) => (w, .idle)
  | (w, some first) =>
      if first ≠ 0 then
        if bookNum = 0 then ((w.send i invalidOpMsg).closeConn i, .idle)
        else (w, .checkCurr i env 0 bookNum trainFd)
      else
        match w.addORcancel cfg i bookNum with
        | (w, none) => (w, .idle)
        | (w, some second) =>
            if second = 0 then w.beginCancel cfg i bookNum trainFd
            else (w.send i writeSeatMsg, .idle)

/-- `handleLine`. -/
def beginLine (cfg : Config) (env : Env) (w : World) (i : Nat) : World × Phase :=
  if (w.requestP i).buf = "exit".toList then ((w.send i exitMsg).closeConn i, .idle)
  else
    match (w.requestP i).status with
    | .SHIFT => w.beginShift cfg env i
    | .BOOKED => (w.handleBooked i, .idle)
    | status =>
        if status = .SEAT ∧ (w.requestP i).buf = "pay".toList then w.beginPay cfg i
        else w.beginSeat cfg env i

/-! ## The sections -/

/-- Behind the `call`-th result of `occupied`. -/
def afterOccupied (w : World) (i : Nat) (env : Env) (fd full : Int) : Nat → World × Phase
  | 0 =>
      if full ≠ 0 then ((w.send i fullMsg).send i writeShiftMsg, .idle)
      else (w, .occupied i env 1 fd)
  | 1 =>
      if full = 0 then
        let w := w.setRecord i
          { w.recordP i with shiftId := atoi (w.requestP i).buf, trainFd := fd }
        (((w.setStatus i .SEAT).sendInfo i).send i writeSeatMsg, .idle)
      else (w, .occupied i env 2 fd)
  | _ => if full = -1 then (w.closeConn i, .idle) else (w, .idle)

/-- Behind the `call`-th result of `checkCurr`. -/
def afterCheck (w : World) (i : Nat) (env : Env) (bookNum trainFd code : Int) :
    Nat → World × Phase
  | 0 =>
      if code = 0 then (w, .take i bookNum trainFd) else (w, .checkCurr i env 1 bookNum trainFd)
  | 1 =>
      if code = 1 then ((w.send i seatBookedMsg).send i writeSeatMsg, .idle)
      else (w, .checkCurr i env 2 bookNum trainFd)
  | _ =>
      if code = 2 then ((w.send i lockMsg).send i writeSeatMsg, .idle) else (w.closeConn i, .idle)

/-- The next part of a request. -/
def proceed (cfg : Config) (w : World) : Phase → World × Phase
  | .idle => (w, .idle)
  | .occupied i env call fd =>
      let (w, full) := w.occupied cfg env call fd
      w.afterOccupied i env fd full call
  | .checkCurr i env call bookNum trainFd =>
      match w.checkCurr cfg env call i bookNum with
      | (w, none) => (w, .idle)
      | (w, some code) => w.afterCheck i env bookNum trainFd code call
  | .take i bookNum trainFd =>
      let w := w.setSeatStat cfg i (bookNum - 1) .CHOSEN
      if w.halt.isSome then (w, .idle) else (w.addChosen i 1, .takeStore i bookNum trainFd)
  | .takeStore i bookNum trainFd =>
      let w := w.storeCell cfg trainFd (bookNum - 1) '2'
      if w.halt.isSome then (w, .idle) else ((w.sendInfo i).send i writeSeatMsg, .idle)
  | .cancelStore i bookNum trainFd =>
      let w := w.storeCell cfg trainFd (bookNum - 1) '0'
      if w.halt.isSome then (w, .idle)
      else (((w.send i cancelMsg).sendInfo i).send i writeSeatMsg, .idle)
  | .pay i trainFd j =>
      if j < SEAT_NUM then
        if (w.recordP i).seatStat j = .CHOSEN then
          let w := w.setRecord i ((w.recordP i).setSeat j .PAID)
          let w := w.setStatus i .BOOKED
          (w.addChosen i (-1), .payStore i trainFd j)
        else (w, .pay i trainFd (j + 1))
      else (((w.send i bookSuccMsg).sendInfo i).send i writeSeatOrExitMsg, .idle)
  | .payStore i trainFd j =>
      let w := w.storeCell cfg trainFd j '1'
      if w.halt.isSome then (w, .idle) else (w, .pay i trainFd (j + 1))

/-! ## Without interruption -/

/-- Some parts of a request, one after the other. -/
def Runs (cfg : Config) : World × Phase → World × Phase → Prop :=
  Relation.ReflTransGen fun first second => second = first.1.proceed cfg first.2

variable {cfg : Config} {env : Env} {w : World} {i : Nat}

theorem Runs.next {first last : World × Phase}
    (rest : Runs cfg (first.1.proceed cfg first.2) last) : Runs cfg first last :=
  Relation.ReflTransGen.head rfl rest

/-- A part that ends the request. -/
theorem Runs.last {first last : World × Phase} (ends : first.1.proceed cfg first.2 = last) :
    Runs cfg first last := .single ends.symm

theorem beginShift_runs : Runs cfg (w.beginShift cfg env i) (w.handleShift cfg env i, .idle) := by
  unfold beginShift handleShift
  split
  · exact .refl
  dsimp only
  generalize cfg.trainFd (atoi (w.requestP w.connFd).buf - TRAIN_ID_START) = looked
  generalize w.log (.train (atoi (w.requestP w.connFd).buf - TRAIN_ID_START)) = w
  cases looked with
  | none => exact .refl
  | some fd =>
    apply Runs.next
    simp only [proceed, afterOccupied]
    split
    · exact .refl
    apply Runs.next
    simp only [proceed, afterOccupied]
    split
    · exact .refl
    apply Runs.last
    simp only [proceed, afterOccupied]
    split <;> rfl

/-- The payment loop from its head with `j` on. -/
theorem payLoop_runs (trainFd : Int) (turns : Nat) :
    ∀ (w : World) (j : Nat), w.halt.isSome = false → j + turns = SEAT_NUM →
      let paid := (List.range' j turns).foldl (payStep cfg i trainFd) w
      Runs cfg (w, .pay i trainFd j)
        (if paid.halt.isSome then paid
          else ((paid.send i bookSuccMsg).sendInfo i).send i writeSeatOrExitMsg, .idle) := by
  induction turns with
  | zero =>
    intro w j running behind
    apply Runs.last
    simp [proceed, running, show ¬ j < SEAT_NUM by omega]
  | succ turns ih =>
    intro w j running more
    rw [List.range'_succ, List.foldl_cons]
    apply Runs.next
    by_cases chosen : (w.recordP i).seatStat j = .CHOSEN
    · have turn : payStep cfg i trainFd w j =
          ((((w.setRecord i ((w.recordP i).setSeat j .PAID)).setStatus i .BOOKED).addChosen i
            (-1)).storeCell cfg trainFd j '1') := by
        simp [payStep, running, chosen]
      simp only [proceed, show j < SEAT_NUM by omega, if_true, chosen]
      apply Runs.next
      simp only [proceed, turn]
      generalize ((((w.setRecord i ((w.recordP i).setSeat j .PAID)).setStatus i .BOOKED).addChosen i
        (-1)).storeCell cfg trainFd j '1') = stored
      by_cases halted : stored.halt.isSome = true
      · have stays : ∀ seats : List Nat, seats.foldl (payStep cfg i trainFd) stored = stored := by
          intro seats
          induction seats with
          | nil => rfl
          | cons k rest ih => rw [List.foldl_cons, payStep, if_pos halted, ih]
        rw [stays, if_pos halted, if_pos halted]
        exact .refl
      · rw [if_neg halted]
        exact ih stored (j + 1) (by simpa using halted) (by omega)
    · have turn : payStep cfg i trainFd w j = w := by simp [payStep, chosen]
      simp only [proceed, show j < SEAT_NUM by omega, if_true, chosen, if_false, turn]
      exact ih w (j + 1) running (by omega)

theorem beginPay_runs (running : w.halt = none) :
    Runs cfg (w.beginPay cfg i) (w.pay cfg i, .idle) := by
  unfold beginPay pay
  split
  · exact .refl
  · have going : (w.lseek cfg (w.recordP i).trainFd 0 false).1.halt.isSome = false := by
      rw [lseek_halt, running]
      rfl
    rw [List.range_eq_range']
    exact payLoop_runs (w.recordP i).trainFd SEAT_NUM _ 0 going rfl

theorem choose_runs (bookNum trainFd : Int) :
    Runs cfg (w, .checkCurr i env 0 bookNum trainFd)
      (w.choose cfg env i bookNum trainFd, .idle) := by
  apply Runs.next
  unfold choose
  simp only [proceed]
  generalize w.checkCurr cfg env 0 i bookNum = called
  obtain ⟨w, code⟩ := called
  cases code with
  | none => exact .refl
  | some first =>
    simp only [afterCheck]
    split
    · apply Runs.next
      simp only [proceed, take]
      split
      · exact .refl
      apply Runs.last
      simp only [proceed]
      split <;> rfl
    apply Runs.next
    simp only [proceed]
    generalize w.checkCurr cfg env 1 i bookNum = called
    obtain ⟨w, code⟩ := called
    cases code with
    | none => exact .refl
    | some second =>
      simp only [afterCheck]
      split
      · exact .refl
      apply Runs.last
      simp only [proceed]
      generalize w.checkCurr cfg env 2 i bookNum = called
      obtain ⟨w, code⟩ := called
      cases code with
      | none => rfl
      | some third =>
        simp only [afterCheck]
        split <;> rfl

theorem beginCancel_runs (bookNum trainFd : Int) :
    Runs cfg (w.beginCancel cfg i bookNum trainFd) (w.cancel cfg i bookNum trainFd, .idle) := by
  unfold beginCancel cancel
  dsimp only
  split
  · exact .refl
  apply Runs.last
  simp only [proceed]
  split <;> rfl

theorem beginSeat_runs : Runs cfg (w.beginSeat cfg env i) (w.handleSeat cfg env i, .idle) := by
  unfold beginSeat handleSeat
  dsimp only
  generalize (w.recordP i).trainFd = trainFd
  generalize atoi (w.requestP i).buf = bookNum
  generalize w.addORcancel cfg i bookNum = called
  obtain ⟨w, code⟩ := called
  cases code with
  | none => exact .refl
  | some first =>
    dsimp only
    split
    · split
      · exact .refl
      · exact choose_runs bookNum trainFd
    · generalize w.addORcancel cfg i bookNum = called
      obtain ⟨w, code⟩ := called
      cases code with
      | none => exact .refl
      | some second =>
        dsimp only
        split
        · exact beginCancel_runs bookNum trainFd
        · exact .refl

/-- Cut up and run without interruption, the handling of a line is `handleLine`. -/
theorem beginLine_runs (running : w.halt = none) :
    Runs cfg (w.beginLine cfg env i) (w.handleLine cfg env i, .idle) := by
  unfold beginLine handleLine
  split
  · exact .refl
  cases (w.requestP i).status with
  | INVALID => exact beginSeat_runs
  | SHIFT => exact beginShift_runs
  | BOOKED => exact .refl
  | SEAT =>
    dsimp only
    split
    · exact beginPay_runs running
    · exact beginSeat_runs

end World
end NTUSP.Server
