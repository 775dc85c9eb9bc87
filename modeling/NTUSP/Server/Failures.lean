import NTUSP.Server.Reaction
import NTUSP.Server.ReadServer

/-!
# Accesses to a train file that fail

`occupied` and `checkCurr` return early when a call fails, with the lock of the file held, and
the callers take the `-1` for "fully booked" or ask again. So an access that fails is undone in
one case only: the connection chooses a seat, the first two calls of `checkCurr` do not hide
the failure, and the third one goes through.
-/

namespace NTUSP.Server

open NTUSP.Library CString

/-! ## What a failed access should leave -/

/-- From `w` to `t` the connection `i` ended, and nothing else is left of an access to `fd`. -/
structure Undone (w t : World) (i : Nat) (fd : Int) : Prop where
  unlocked : (t.files fd).locked = false
  rewound : (t.files fd).offset = 0
  cells : ∀ fd', (t.files fd').bytes = (w.files fd').bytes
  others : ∀ k, k ≠ i → t.requestP k = w.requestP k ∧ t.recordP k = w.recordP k
  ended : t.requestP i = freeRequest ∧ t.recordP i = initRecord
  untold : ∃ more, t.sent = w.sent ++ more ∧ ∀ message ∈ more, message.2 ≠ fullMsg

/-- A connection that stays open is not disconnected. -/
theorem not_undone_of_open {w t : World} {i : Nat} {fd : Int} (stays : (t.requestP i).connFd ≠ -1) :
    ¬ Undone w t i fd := by
  intro undone
  rw [undone.ended.1] at stays
  exact stays rfl

namespace Env

/-- `checkCurr` gives up before it has the cell. -/
def blocks (env : Env) (index : Int) (call : Nat) : Prop :=
  index < 0 ∨ env.fails .checkSeek call ∨ env.fails .checkRead call

/-- The byte that `checkCurr` takes for the cell. -/
def found (env : Env) (f : TrainFile) (index : Int) (call : Nat) : Char :=
  f.bytes[2 * index.toNat]?.getD (env.junk.getD call '\x00')

/-- A call of `occupied` has a call that fails. -/
def occupiedFails (env : Env) (call : Nat) : Prop :=
  env.fails .occupiedRead call ∨ env.fails .occupiedRewind call

/-- A call of `checkCurr` has a call that fails. -/
def checkFails (env : Env) (index : Int) (call : Nat) : Prop :=
  env.fails .checkRewind call ∨ env.blocks index call ∨ env.fails .checkRestore call

/-- The calls of `checkCurr` about a seat lead to the end of the connection, and the last of
them leaves the file as it was. -/
structure Recovers (env : Env) (f : TrainFile) (index : Int) : Prop where
  first : env.blocks index 0 ∨ env.found f index 0 ≠ '0'
  second : env.blocks index 1 ∨ env.found f index 1 ≠ '1'
  third : ¬ env.blocks index 2 ∧ env.found f index 2 ≠ '2'
  restores : env.fails .checkRestore 2 = false ∨ (index = 0 ∧ f.bytes = [])

instance (env : Env) (index : Int) (call : Nat) : Decidable (env.blocks index call) := by
  unfold blocks
  infer_instance

end Env

/-- The position behind a read of one character is the start only of an empty file. -/
theorem offset_eq_zero_iff (bytes : List Char) (k : Nat) :
    2 * k + ((bytes.drop (2 * k)).take 1).length = 0 ↔ k = 0 ∧ bytes = [] := by
  rw [List.length_take, List.length_drop]
  constructor
  · intro start
    exact ⟨by omega, List.length_eq_zero_iff.mp (by omega)⟩
  · rintro ⟨first, empty⟩
    simp [first, empty]

/-- The division of C does not show in the position of a seat. -/
theorem seatOffset_eq (index : Int) : seatOffset index = 2 * index := by
  have whole := Int.mul_tdiv_add_tmod index 4
  unfold seatOffset
  omega

theorem cellCode_eq_zero_iff (cell : Char) : cellCode cell = 0 ↔ cell = '0' :=
  ⟨cellCode_eq_zero, fun zero => zero ▸ rfl⟩

theorem cellCode_eq_one (cell : Char) : cellCode cell = 1 ↔ cell = '1' := by
  unfold cellCode
  split_ifs <;> simp_all

theorem cellCode_eq_two (cell : Char) : cellCode cell = 2 ↔ cell = '2' := by
  unfold cellCode
  split_ifs <;> simp_all

namespace World

variable {cfg : Config} {env : Env} {w : World} {i : Nat} {j : Fin TRAIN_NUM}

variable (cfg) in
/-- Behind the read of a cell the file is unlocked, and rewound unless that call fails. -/
theorem readBack_file (count : Nat) (fails : Bool) :
    ((((w.read (cfg.trains j) count).1.lseek cfg (cfg.trains j) 0 fails).1.setLock cfg
        (cfg.trains j) false).files (cfg.trains j)).locked = false ∧
      (((((w.read (cfg.trains j) count).1.lseek cfg (cfg.trains j) 0 fails).1.setLock cfg
        (cfg.trains j) false).files (cfg.trains j)).offset = 0 ↔
        fails = false ∨ (w.files (cfg.trains j)).offset +
          (((w.files (cfg.trains j)).bytes.drop (w.files (cfg.trains j)).offset).take
            count).length = 0) := by
  cases fails <;> simp [read, lseek, setLock, setFile, log]

/-- A seat before the first is not sought. -/
theorem lseek_seat (index : Int) (fails : Bool) :
    w.lseek cfg (cfg.trains j) (seatOffset index) fails =
      (if index < 0 ∨ fails = true then (w.log (.seek (cfg.trains j) (seatOffset index)), false)
      else ((w.log (.seek (cfg.trains j) (seatOffset index))).setFile (cfg.trains j)
        { w.files (cfg.trains j) with offset := 2 * index.toNat }, true)) := by
  have position : (seatOffset index).toNat = 2 * index.toNat := by
    rw [seatOffset_eq]
    omega
  have before : seatOffset index < 0 ↔ index < 0 := by
    rw [seatOffset_eq]
    omega
  unfold lseek
  dsimp only
  rw [position]
  cases fails <;> simp [before, log]

variable (env) in
/-- How `checkCurr` leaves its train file, whatever calls fail. -/
theorem checkCurr_left (running : w.halt = none) (record : (w.recordP i).trainFd = cfg.trains j)
    (call : Nat) (checkNum : Int) :
    ∃ t, w.checkCurr cfg env call i checkNum =
        (t, some (if env.blocks (checkNum - 1) call then -1
          else cellCode (env.found (w.files (cfg.trains j)) (checkNum - 1) call))) ∧
      t.halt = none ∧ t.settle = w.settle ∧ t.sent = w.sent ∧
      ((t.files (cfg.trains j)).locked = true ↔ env.blocks (checkNum - 1) call) ∧
      (¬ env.blocks (checkNum - 1) call → ((t.files (cfg.trains j)).offset = 0 ↔
        env.fails .checkRestore call = false ∨
          (checkNum - 1 = 0 ∧ (w.files (cfg.trains j)).bytes = []))) := by
  obtain ⟨t, code, called, going, settled⟩ := checkCurr_returns env running record call checkNum
  have sent := checkCurr_sent cfg env w i call checkNum
  rw [called] at sent ⊢
  have bytes : (((w.lseek cfg (cfg.trains j) 0 (env.fails .checkRewind call)).1.setLock cfg
      (cfg.trains j) true).files (cfg.trains j)).bytes = (w.files (cfg.trains j)).bytes :=
    Tables.bytes_of_settle ((setLock_settle cfg _ (cfg.trains j) true).trans
      (lseek_settle cfg w _ _ _)) _
  have held : (((w.lseek cfg (cfg.trains j) 0 (env.fails .checkRewind call)).1.setLock cfg
      (cfg.trains j) true).files (cfg.trains j)).locked = true := by
    simp [setLock, setFile]
  have locked : ((w.lseek cfg (cfg.trains j) 0 (env.fails .checkRewind call)).1.setLock cfg
      (cfg.trains j) true).halt = none := by
    rw [setLock_halt, lseek_halt, running]
  unfold checkCurr at called
  dsimp only at called
  rw [record, locked, if_neg (by simp)] at called
  generalize (w.lseek cfg (cfg.trains j) 0 (env.fails .checkRewind call)).1.setLock cfg
    (cfg.trains j) true = u at bytes held called
  rw [lseek_seat] at called
  suffices left : code = (if env.blocks (checkNum - 1) call then -1
      else cellCode (env.found (w.files (cfg.trains j)) (checkNum - 1) call)) ∧
      ((t.files (cfg.trains j)).locked = true ↔ env.blocks (checkNum - 1) call) ∧
      (¬ env.blocks (checkNum - 1) call → ((t.files (cfg.trains j)).offset = 0 ↔
        env.fails .checkRestore call = false ∨
          (checkNum - 1 = 0 ∧ (w.files (cfg.trains j)).bytes = []))) by
    exact ⟨t, by rw [left.1], going, settled, sent, left.2⟩
  by_cases before : checkNum - 1 < 0 ∨ env.fails .checkSeek call = true
  · -- the second `lseek` fails
    have blocks : env.blocks (checkNum - 1) call := before.imp id .inl
    rw [if_pos before] at called
    cases called
    exact ⟨by rw [if_pos blocks], iff_of_true held blocks, fun clear => absurd blocks clear⟩
  rw [if_neg before] at called
  by_cases reads : env.fails .checkRead call = true
  · have blocks : env.blocks (checkNum - 1) call := .inr (.inr reads)
    simp only [Bool.not_true, Bool.false_eq_true, if_false, reads, if_true] at called
    cases called
    refine ⟨by rw [if_pos blocks], iff_of_true ?_ blocks, fun clear => absurd blocks clear⟩
    simpa [setFile, log] using held
  · have clear : ¬ env.blocks (checkNum - 1) call := by
      rintro (first | sought | failed)
      · exact before (.inl first)
      · exact before (.inr sought)
      · exact reads failed
    simp only [Bool.not_true, Bool.false_eq_true, if_false, reads] at called
    cases called
    obtain ⟨unlocked, rewound⟩ := readBack_file cfg (j := j)
      (w := (u.log (.seek (cfg.trains j) (seatOffset (checkNum - 1)))).setFile (cfg.trains j)
        { u.files (cfg.trains j) with offset := 2 * (checkNum - 1).toNat }) 1
      (env.fails .checkRestore call)
    refine ⟨?_, iff_of_false (Bool.not_eq_true _ ▸ unlocked) clear, fun _ => rewound.trans ?_⟩
    · rw [if_neg clear]
      simp [read, setFile, bytes, Env.found, head?_read]
    · have inside : 0 ≤ checkNum - 1 := by omega
      have here : ((u.log (.seek (cfg.trains j) (seatOffset (checkNum - 1)))).setFile
          (cfg.trains j) { u.files (cfg.trains j) with offset := 2 * (checkNum - 1).toNat }).files
            (cfg.trains j) =
          { u.files (cfg.trains j) with offset := 2 * (checkNum - 1).toNat } := by
        simp [setFile]
      rw [here]
      dsimp only
      rw [bytes, offset_eq_zero_iff]
      have index : (checkNum - 1).toNat = 0 ↔ checkNum - 1 = 0 := by omega
      rw [index]

/-- A connection that is ended behind a call keeps nothing but the lock and the offset. -/
theorem undone_closeConn {t : World} {fd : Int} (settled : t.settle = w.settle)
    (sent : t.sent = w.sent) : Undone w (t.closeConn i) i fd ↔
      (t.files fd).locked = false ∧ (t.files fd).offset = 0 := by
  constructor
  · intro undone
    exact ⟨undone.unlocked, undone.rewound⟩
  · rintro ⟨unlocked, rewound⟩
    have cells : ∀ fd', (t.files fd').bytes = (w.files fd').bytes :=
      Tables.bytes_of_settle settled
    refine ⟨unlocked, rewound, cells, fun k other => ?_, ?_, [], ?_, ?_⟩
    · simp [closeConn, setRequest, setRecord, other, Tables.requestP_of_settle settled,
        Tables.recordP_of_settle settled]
    · simp [closeConn, setRequest, setRecord]
    · simpa [closeConn, setRequest, setRecord] using sent
    · simp

theorem take_requestP (w : World) (i : Nat) (bookNum trainFd : Int) :
    (w.take cfg i bookNum trainFd).requestP = w.requestP := by
  have seat : (w.setSeatStat cfg i (bookNum - 1) .CHOSEN).requestP = w.requestP := by
    unfold setSeatStat
    dsimp only
    split <;> rfl
  have cell := (storeCell_aside cfg ((w.setSeatStat cfg i (bookNum - 1) .CHOSEN).addChosen i 1)
    trainFd (bookNum - 1) '2').requestP.trans seat
  unfold take
  dsimp only
  split
  · exact seat
  split
  · exact cell
  · exact cell

/-- A seat that is a word of the records is taken without an end of the process. -/
theorem take_halt (running : w.halt = none) {bookNum : Int} (inside : ¬ bookNum - 1 < 0)
    {word : Nat} (found : seatWord cfg i (bookNum - 1) = some word) :
    (w.take cfg i bookNum (cfg.trains j)).halt = none := by
  have seat : (w.setSeatStat cfg i (bookNum - 1) .CHOSEN).halt = none := by
    simpa [setSeatStat, found, setRecord, log] using running
  have cell : (((w.setSeatStat cfg i (bookNum - 1) .CHOSEN).addChosen i 1).storeCell cfg
      (cfg.trains j) (bookNum - 1) '2').halt = none := by
    obtain ⟨k, index⟩ : ∃ k : Nat, bookNum - 1 = k := ⟨(bookNum - 1).toNat, by omega⟩
    rw [storeCell_ok '2' index]
    exact seat
  unfold take
  dsimp only
  rw [seat, if_neg (by simp), cell, if_neg (by simp)]
  exact cell

end World

/-- What `checkCurr` returns, as a code of a cell. -/
theorem checked_eq_iff {blocked : Prop} [Decidable blocked] {cell : Char} {n : Int} (some : n ≠ -1) :
    (if blocked then -1 else cellCode cell) = n ↔ ¬ blocked ∧ cellCode cell = n := by
  by_cases holds : blocked
  · rw [if_pos holds]
    exact iff_of_false some.symm fun both => both.1 holds
  · rw [if_neg holds]
    simp [holds]

/-- The call of `checkCurr` does not report the character that its code stands for. -/
theorem checked_ne_iff {blocked : Prop} [Decidable blocked] {cell c : Char} {n : Int}
    (some : n ≠ -1) (code : cellCode cell = n ↔ cell = c) :
    ¬ (if blocked then -1 else cellCode cell) = n ↔ blocked ∨ cell ≠ c := by
  rw [checked_eq_iff some, code, not_and_or, not_not]

namespace World

variable {cfg : Config} {env : Env} {w : World} {i : Nat} {j : Fin TRAIN_NUM}

variable (env) in
/-- A choice is undone exactly if its calls of `checkCurr` recover. -/
theorem choose_undone_iff (running : w.halt = none)
    (record : (w.recordP i).trainFd = cfg.trains j) (connected : (w.requestP i).connFd ≠ -1)
    (bookNum : Int) :
    Undone w (w.choose cfg env i bookNum (cfg.trains j)) i (cfg.trains j) ↔
      env.Recovers (w.files (cfg.trains j)) (bookNum - 1) := by
  -- Every call sees the books of `w`, so the three codes are computed there.
  have again : ∀ {t : World}, t.settle = w.settle →
      (t.requestP i).connFd ≠ -1 ∧ (t.recordP i).trainFd = cfg.trains j ∧
        (∀ call, env.found (t.files (cfg.trains j)) (bookNum - 1) call =
          env.found (w.files (cfg.trains j)) (bookNum - 1) call) := by
    intro t settled
    rw [Tables.requestP_of_settle settled, Tables.recordP_of_settle settled]
    refine ⟨connected, record, fun call => ?_⟩
    unfold Env.found
    rw [Tables.bytes_of_settle settled]
  obtain ⟨t, called, going, settled, sent, _⟩ := checkCurr_left env running record 0 bookNum
  unfold choose
  rw [called]
  dsimp only
  by_cases free : (if env.blocks (bookNum - 1) 0 then -1
      else cellCode (env.found (w.files (cfg.trains j)) (bookNum - 1) 0)) = 0
  · rw [if_pos free]
    have reported := not_not.mpr free
    rw [checked_ne_iff (by decide) (cellCode_eq_zero_iff _)] at reported
    refine iff_of_false (not_undone_of_open ?_) fun recovers => reported recovers.first
    rw [take_requestP]
    exact (again settled).1
  rw [if_neg free]
  have first := (checked_ne_iff (by decide) (cellCode_eq_zero_iff _)).mp free
  obtain ⟨t', called', going', settled', sent', _⟩ :=
    checkCurr_left env going (again settled).2.1 1 bookNum
  rw [(again settled).2.2] at called'
  rw [called']
  dsimp only
  have settled' := settled'.trans settled
  by_cases sold : (if env.blocks (bookNum - 1) 1 then -1
      else cellCode (env.found (w.files (cfg.trains j)) (bookNum - 1) 1)) = 1
  · rw [if_pos sold]
    have reported := not_not.mpr sold
    rw [checked_ne_iff (by decide) (cellCode_eq_one _)] at reported
    exact iff_of_false (not_undone_of_open (again settled').1) fun recovers =>
      reported recovers.second
  rw [if_neg sold]
  have second := (checked_ne_iff (by decide) (cellCode_eq_one _)).mp sold
  obtain ⟨t'', called'', _, settled'', sent'', locked, rewound⟩ :=
    checkCurr_left env going' (again settled').2.1 2 bookNum
  rw [(again settled').2.2] at called''
  rw [Tables.bytes_of_settle settled'] at rewound
  rw [called'']
  dsimp only
  have settled'' := settled''.trans settled'
  by_cases chosen : (if env.blocks (bookNum - 1) 2 then -1
      else cellCode (env.found (w.files (cfg.trains j)) (bookNum - 1) 2)) = 2
  · rw [if_pos chosen]
    have reported := not_not.mpr chosen
    rw [checked_ne_iff (by decide) (cellCode_eq_two _)] at reported
    exact iff_of_false (not_undone_of_open (again settled'').1) fun recovers =>
      reported (.inr recovers.third.2)
  have third := (checked_ne_iff (by decide) (cellCode_eq_two _)).mp chosen
  rw [if_neg chosen, undone_closeConn settled'' (sent''.trans (sent'.trans sent)),
    ← Bool.not_eq_true, locked]
  constructor
  · rintro ⟨clear, start⟩
    exact ⟨first, second, ⟨clear, third.resolve_left clear⟩, (rewound clear).mp start⟩
  · intro recovers
    exact ⟨recovers.third.1, (rewound recovers.third.1).mpr recovers.restores⟩

variable (env) in
/-- A choice of a seat that is a word of the records leaves the process running. -/
theorem choose_halt (running : w.halt = none) (record : (w.recordP i).trainFd = cfg.trains j)
    {bookNum : Int} {word : Nat} (found : seatWord cfg i (bookNum - 1) = some word) :
    (w.choose cfg env i bookNum (cfg.trains j)).halt = none := by
  have again : ∀ {t : World}, t.settle = w.settle → (t.recordP i).trainFd = cfg.trains j := by
    intro t settled
    rw [Tables.recordP_of_settle settled]
    exact record
  obtain ⟨t, called, going, settled, _⟩ := checkCurr_left env running record 0 bookNum
  unfold choose
  rw [called]
  dsimp only
  by_cases free : (if env.blocks (bookNum - 1) 0 then -1
      else cellCode (env.found (w.files (cfg.trains j)) (bookNum - 1) 0)) = 0
  · rw [if_pos free]
    obtain ⟨clear, _⟩ := (checked_eq_iff (by decide)).mp free
    exact take_halt going (fun before => clear (.inl before)) found
  rw [if_neg free]
  obtain ⟨t', code, called', going', settled'⟩ :=
    checkCurr_returns env going (again settled) 1 bookNum
  rw [called']
  dsimp only
  split
  · exact going'
  obtain ⟨t'', code, called'', going'', _⟩ :=
    checkCurr_returns env going' (again (settled'.trans settled)) 2 bookNum
  rw [called'']
  dsimp only
  split <;> exact going''

/-! ## A shift selection -/

variable (env) in
/-- How `occupied` leaves a train file, whatever calls fail. -/
theorem occupied_left (running : w.halt = none) (call : Nat) :
    ∃ t code, w.occupied cfg env call (cfg.trains j) = (t, code) ∧ t.halt = none ∧
      t.requestP = w.requestP ∧ (code = -1 → (t.files (cfg.trains j)).locked = true) := by
  refine ⟨(w.occupied cfg env call (cfg.trains j)).1, (w.occupied cfg env call (cfg.trains j)).2,
    rfl, (occupied_halt call).trans running, (occupied_aside cfg env w call _).requestP,
    fun failed => ?_⟩
  unfold occupied at failed ⊢
  dsimp only at failed ⊢
  split at failed
  · rename_i reads
    rw [if_pos reads]
    simp [setLock, setFile]
  · split at failed <;> cases failed

variable (env) in
/-- A selection that looks up a train leaves its client connected, or the file locked. -/
theorem handleShift_left (running : w.halt = none) (line : (w.requestP i).buf ∈ shiftIds)
    (looked : cfg.trainFd w.readTrainNum = some (cfg.trains j : Int)) :
    (w.handleShift cfg env i).halt = none ∧
      (((w.handleShift cfg env i).requestP i).connFd = (w.requestP i).connFd ∨
        ((w.handleShift cfg env i).files (cfg.trains j)).locked = true) := by
  have index : atoi (w.requestP w.connFd).buf - TRAIN_ID_START = w.readTrainNum := rfl
  unfold handleShift
  rw [if_neg (not_not.mpr line)]
  dsimp only
  rw [index, looked]
  dsimp only
  have logged : (w.log (.train w.readTrainNum)).halt = none := running
  have requests : (w.log (.train w.readTrainNum)).requestP = w.requestP := rfl
  generalize w.log (.train w.readTrainNum) = u at logged requests
  obtain ⟨t, first, called, going, same, _⟩ := occupied_left env logged (j := j) 0
  rw [called]
  dsimp only
  split
  · exact ⟨going, .inl (by simp [send, same, requests])⟩
  obtain ⟨t', second, called', going', same', _⟩ := occupied_left env going (j := j) 1
  rw [called']
  dsimp only
  split
  · refine ⟨going', .inl ?_⟩
    simp [send, sendInfo, setStatus, setRequest, setRecord, same', same, requests]
  obtain ⟨t'', third, called'', going'', same'', held⟩ := occupied_left env going' (j := j) 2
  rw [called'']
  dsimp only
  split
  · rename_i failed
    exact ⟨going'', .inr (held failed)⟩
  · exact ⟨going'', .inl (by rw [same'', same', same, requests])⟩

end World

/-! ## The lines of the write server -/

/-- The line is handled as a seat command. -/
def Tables.SeatCommand (t : Tables) (i : Nat) : Prop :=
  (t.requestP i).buf ≠ "exit".toList ∧ (t.requestP i).status ≠ .SHIFT ∧
    (t.requestP i).status ≠ .BOOKED ∧
    ¬ ((t.requestP i).status = .SEAT ∧ (t.requestP i).buf = "pay".toList)

namespace World

variable {cfg : Config} {env : Env} {w v t : World} {i : Nat} {j : Fin TRAIN_NUM} {action : Action}

/-- One of the accesses to the file of train `j` that the stored line of connection `i` leads to,
in `occupied` or in `checkCurr`, fails. -/
inductive AccessFails (cfg : Config) (env : Env) (w : World) (i : Nat) (j : Fin TRAIN_NUM) : Prop
  | shift (line : w.ShiftLine i) (looked : cfg.trainFd w.readTrainNum = some (cfg.trains j : Int))
      (fails : env.occupiedFails 0 ∨ ((w.occupied cfg env 0 (cfg.trains j)).2 = 0 ∧
        (env.occupiedFails 1 ∨
          (((w.occupied cfg env 0 (cfg.trains j)).1.occupied cfg env 1 (cfg.trains j)).2 ≠ 0 ∧
            env.occupiedFails 2)))) : AccessFails cfg env w i j
  | seat (command : w.SeatCommand i) (record : (w.recordP i).trainFd = cfg.trains j)
      {index : Int} (number : atoi (w.requestP i).buf = index + 1) (counted : index + 1 ≠ 0)
      (adds : (w.addORcancel cfg i (index + 1)).2 = some 1)
      (fails : env.checkFails index 0 ∨
        ((env.blocks index 0 ∨ env.found (w.files (cfg.trains j)) index 0 ≠ '0') ∧
          (env.checkFails index 1 ∨
            ((env.blocks index 1 ∨ env.found (w.files (cfg.trains j)) index 1 ≠ '1') ∧
              env.checkFails index 2)))) : AccessFails cfg env w i j

theorem handleLine_seatCommand (command : w.SeatCommand i) :
    w.handleLine cfg env i = w.handleSeat cfg env i := by
  obtain ⟨exits, shift, booked, pays⟩ := command
  unfold handleLine
  rw [if_neg exits]
  cases status : (w.requestP i).status with
  | SHIFT => exact absurd status shift
  | BOOKED => exact absurd status booked
  | SEAT => exact if_neg fun both => pays ⟨status, both.2⟩
  | INVALID => exact if_neg fun both => by cases both.1

/-- `addORcancel` that wants to add has found its seat in the memory of the records. -/
theorem addORcancel_adds {seatINP : Int} (adds : (w.addORcancel cfg i seatINP).2 = some 1) :
    w.addORcancel cfg i seatINP = (w.log (.seat (seatINP - 1)), some 1) ∧
      ∃ word, seatWord cfg i (seatINP - 1) = some word := by
  unfold addORcancel at adds ⊢
  dsimp only at adds ⊢
  split at adds
  · cases adds
  · rename_i word found
    split at adds
    · cases adds
    · rename_i other
      exact ⟨by rw [if_neg other], word, found⟩

/-- A line with an access that fails leaves the process running, and the access is undone
exactly if it is a choice of a seat whose calls recover. -/
theorem handleLine_undone_iff (running : w.halt = none) (connected : (w.requestP i).connFd ≠ -1)
    (fails : AccessFails cfg env w i j) :
    (w.handleLine cfg env i).halt = none ∧
      (Undone w (w.handleLine cfg env i) i (cfg.trains j) ↔
        w.SeatCommand i ∧
          env.Recovers (w.files (cfg.trains j)) (atoi (w.requestP i).buf - 1)) := by
  cases fails with
  | shift line looked =>
    obtain ⟨going, left⟩ := handleShift_left env running line.2 looked
    rw [handleLine_shiftLine line]
    refine ⟨going, iff_of_false (fun undone => ?_) fun both => both.1.2.1 line.1⟩
    rcases left with stays | held
    · rw [← stays] at connected
      exact not_undone_of_open connected undone
    · rw [undone.unlocked] at held
      cases held
  | @seat command record index number counted adds =>
    obtain ⟨added, word, found⟩ := addORcancel_adds adds
    have choice : w.handleLine cfg env i =
        (w.log (.seat (index + 1 - 1))).choose cfg env i (index + 1) (cfg.trains j) := by
      rw [handleLine_seatCommand command]
      unfold handleSeat
      dsimp only
      rw [number, added, record]
      dsimp only
      rw [if_pos (by decide), if_neg counted]
    have same : Undone w (w.handleLine cfg env i) i (cfg.trains j) ↔
        Undone (w.log (.seat (index + 1 - 1))) (w.handleLine cfg env i) i (cfg.trains j) :=
      ⟨fun undone => ⟨undone.1, undone.2, undone.3, undone.4, undone.5, undone.6⟩,
        fun undone => ⟨undone.1, undone.2, undone.3, undone.4, undone.5, undone.6⟩⟩
    have halt := choose_halt env (w := w.log (.seat (index + 1 - 1))) running record found
    have undone := choose_undone_iff env (w := w.log (.seat (index + 1 - 1))) running
      record connected (index + 1)
    rw [same, choice, number]
    exact ⟨halt, undone.trans (and_iff_right command).symm⟩

/-- A step of the write server brings a line of connection `i` that meets an access that fails. -/
def StepFails (cfg : Config) (v : World) (action : Action) (i : Nat) (j : Fin TRAIN_NUM) : Prop :=
  ∃ chunk env text, action = .recv i chunk env ∧ handleRead chunk = .line text ∧
    AccessFails cfg env (v.store i text) i j

/-- The line is a choice of a seat whose calls recover. -/
def StepRecovers (cfg : Config) (v : World) (action : Action) (i : Nat) (j : Fin TRAIN_NUM) : Prop :=
  ∃ chunk env text, action = .recv i chunk env ∧ handleRead chunk = .line text ∧
    (v.store i text).SeatCommand i ∧ env.Recovers (v.files (cfg.trains j)) (atoi text - 1)

/-- Where the line is stored does not matter to what the access should leave. -/
theorem undone_store {text : List Char} {fd : Int} :
    Undone (v.store i text) t i fd ↔ Undone v t i fd := by
  have others : ∀ k, k ≠ i → (v.store i text).requestP k = v.requestP k := by
    intro k other
    simp [store, setRequest, other]
  constructor
  · intro undone
    refine ⟨undone.1, undone.2, undone.3, fun k other => ?_, undone.5, undone.6⟩
    rw [← others k other]
    exact undone.4 k other
  · intro undone
    refine ⟨undone.1, undone.2, undone.3, fun k other => ?_, undone.5, undone.6⟩
    rw [others k other]
    exact undone.4 k other

theorem store_connected (live : v.Live cfg i) (text : List Char) :
    ((v.store i text).requestP i).connFd ≠ -1 := by
  simpa [store, setRequest] using live.2.1

/-- An access that fails in a step is undone exactly if the line recovers. -/
theorem step_undone_iff (transition : v.step cfg action = some t)
    (fails : v.StepFails cfg action i j) :
    t.halt = none ∧ (Undone v t i (cfg.trains j) ↔ v.StepRecovers cfg action i j) := by
  obtain ⟨chunk, env, text, rfl, line, fails⟩ := fails
  unfold step at transition
  split at transition
  · cases transition
  rename_i going
  have running : v.halt = none := by simpa using going
  dsimp only at transition
  split at transition
  · rename_i live
    rw [line] at transition
    cases transition
    obtain ⟨halt, undone⟩ := handleLine_undone_iff (w := v.store i text) running
      (store_connected live.1 text) fails
    have buf : ((v.store i text).requestP i).buf = text := by simp [store, setRequest]
    rw [buf, undone_store] at undone
    refine ⟨halt, undone.trans ⟨fun both => ⟨chunk, env, text, rfl, line, both⟩, ?_⟩⟩
    rintro ⟨_, _, text', same, line', both⟩
    cases same
    rw [line] at line'
    cases line'
    exact both
  · cases transition

end World

/-! ## The read server -/

namespace World

variable {cfg : Config} {w v t : World} {i : Nat} {j : Fin TRAIN_NUM}

/-- `handleReadLine` where the positioning of the file may fail as well. -/
def handleReadLineSeeking (cfg : Config) (w : World) (i : Nat) (fails stuck : Bool) : World :=
  if (w.requestP i).buf = "exit".toList then (w.send i exitMsg).closeConn i
  else if (w.requestP i).buf ∉ shiftIds then (w.send i invalidOpMsg).closeConn i
  else
    let readTrainNum := atoi (w.requestP w.connFd).buf - TRAIN_ID_START
    let w := w.log (.train readTrainNum)
    match cfg.trainFd readTrainNum with
    | none => w.stop .outOfBounds
    | some fd =>
        let w := w.setLock cfg fd true
        if fails then w.closeConn i
        else
          let (w, trainInfo) := w.read fd TRAIN_INFO_LEN
          let w := (w.lseek cfg fd 0 stuck).1
          let w := w.setLock cfg fd false
          (w.send i (cstr trainInfo)).send w.connFd readShiftMsg

theorem handleReadLineSeeking_false (fails : Bool) :
    w.handleReadLineSeeking cfg i fails false = w.handleReadLine cfg i fails := rfl

/-- A step of the read server whose `lseek` may fail. -/
def readStepSeeking (cfg : Config) (w : World) (action : ReadAction × Bool) : Option World :=
  match action.1 with
  | .recv i chunk fails =>
      if w.halt.isSome then none
      else if w.Live cfg i ∧ chunk.length ≤ MAX_MSG_LEN then
        match handleRead chunk with
        | .eof => some (w.closeConn i)
        | .line text => some ((w.store i text).handleReadLineSeeking cfg i fails action.2)
        | .overrun => none
      else none
  | _ => w.readStep cfg action.1

/-- Without that failure it is a step of the read server. -/
theorem readStepSeeking_false (action : ReadAction) :
    w.readStepSeeking cfg (action, false) = w.readStep cfg action := by
  cases action <;> rfl

/-- A step of the read server brings a request of connection `i` for the file of train `j`, and
the `read` or the `lseek` fails. -/
def ReadStepFails (cfg : Config) (v : World) (action : ReadAction × Bool) (i : Nat)
    (j : Fin TRAIN_NUM) : Prop :=
  ∃ chunk fails text, action.1 = .recv i chunk fails ∧ handleRead chunk = .line text ∧
    text ∈ shiftIds ∧ cfg.trainFd (v.store i text).readTrainNum = some (cfg.trains j : Int) ∧
      (fails = true ∨ action.2 = true)

/-- A request that meets a failure leaves its client connected or the file locked. -/
theorem handleReadLineSeeking_left {fails stuck : Bool} (running : w.halt = none)
    (line : (w.requestP i).buf ∈ shiftIds)
    (looked : cfg.trainFd w.readTrainNum = some (cfg.trains j : Int)) :
    (w.handleReadLineSeeking cfg i fails stuck).halt = none ∧
      (((w.handleReadLineSeeking cfg i fails stuck).requestP i).connFd = (w.requestP i).connFd ∨
        ((w.handleReadLineSeeking cfg i fails stuck).files (cfg.trains j)).locked = true) := by
  have stays : (w.requestP i).buf ≠ "exit".toList := by
    intro exits
    rw [exits] at line
    exact absurd line (by decide)
  have index : atoi (w.requestP w.connFd).buf - TRAIN_ID_START = w.readTrainNum := rfl
  unfold handleReadLineSeeking
  rw [if_neg stays, if_neg (not_not.mpr line)]
  dsimp only
  rw [index, looked]
  dsimp only
  cases fails with
  | true =>
    rw [if_pos rfl]
    refine ⟨?_, .inr ?_⟩
    · simpa [closeConn, setRequest, setRecord, setLock, setFile, log] using running
    · simp [closeConn, setRequest, setRecord, setLock, setFile]
  | false =>
    rw [if_neg (by simp)]
    have requests : ∀ u : World, (((u.read (cfg.trains j) TRAIN_INFO_LEN).1.lseek cfg
        (cfg.trains j) 0 stuck).1.setLock cfg (cfg.trains j) false).requestP = u.requestP :=
      fun u => (readBack_aside cfg u (cfg.trains j) TRAIN_INFO_LEN stuck).requestP
    have halts : ∀ u : World, (((u.read (cfg.trains j) TRAIN_INFO_LEN).1.lseek cfg
        (cfg.trains j) 0 stuck).1.setLock cfg (cfg.trains j) false).halt = u.halt := by
      intro u
      rw [setLock_halt, lseek_halt]
      rfl
    refine ⟨?_, .inl ?_⟩
    · refine (halts _).trans ?_
      rw [setLock_halt]
      exact running
    · refine congrArg (fun requests => (requests i).connFd) ((requests _).trans ?_)
      simp [setLock, setFile, log]

/-- A request that meets a failure is never undone. -/
theorem readStep_not_undone {action : ReadAction × Bool}
    (transition : v.readStepSeeking cfg action = some t) (fails : v.ReadStepFails cfg action i j) :
    t.halt = none ∧ ¬ Undone v t i (cfg.trains j) := by
  obtain ⟨action, stuck⟩ := action
  obtain ⟨chunk, failed, text, same, line, accepted, looked, _⟩ := fails
  dsimp only at same
  subst same
  unfold readStepSeeking at transition
  dsimp only at transition
  split at transition
  · cases transition
  rename_i going
  have running : v.halt = none := by simpa using going
  split at transition
  · rename_i live
    rw [line] at transition
    cases transition
    have connected := store_connected live.1 text
    have buf : ((v.store i text).requestP i).buf ∈ shiftIds := by
      simpa [store, setRequest] using accepted
    obtain ⟨halt, left⟩ := handleReadLineSeeking_left (w := v.store i text) running buf looked
    refine ⟨halt, fun undone => ?_⟩
    rcases left with stays | held
    · rw [← stays] at connected
      exact not_undone_of_open connected undone
    · rw [undone.unlocked] at held
      cases held
  · cases transition

end World

/-- The read server on the content of the train files, where an `lseek` may fail. -/
def readMachineSeeking (cfg : Config) (heap : Nat → List Char) (disk : Fin TRAIN_NUM → List Char) :
    Machine World (ReadAction × Bool) where
  Initial w := w = World.initServer cfg heap disk
  step w action := w.readStepSeeking cfg action

variable {cfg : Config} {heap : Nat → List Char} {disk : Fin TRAIN_NUM → List Char}

/-- In every run of the write server all accesses that fail are undone exactly if each of them is
met by a choice of a seat whose calls recover, and in every run of the read server exactly if
no access fails. -/
theorem failures_undone_iff {w w' : World} {run : List (World × Action)}
    {run' : List (World × (ReadAction × Bool))}
    (reached : (machine cfg heap disk).tracing.Reach (fun state => Machine.anyStep state.1)
      (w, run))
    (reached' : (readMachineSeeking cfg heap disk).tracing.Reach
      (fun state => Machine.anyStep state.1) (w', run')) :
    ((∀ v action i j t, (v, action) ∈ run → v.step cfg action = some t →
        v.StepFails cfg action i j → t.halt = none → Undone v t i (cfg.trains j)) ↔
      ∀ v action i j, (v, action) ∈ run → v.StepFails cfg action i j →
        v.StepRecovers cfg action i j) ∧
    ((∀ v action i j t, (v, action) ∈ run' → v.readStepSeeking cfg action = some t →
        v.ReadStepFails cfg action i j → t.halt = none → Undone v t i (cfg.trains j)) ↔
      ∀ v action i j, (v, action) ∈ run' → ¬ v.ReadStepFails cfg action i j) := by
  refine ⟨⟨?_, ?_⟩, ⟨?_, ?_⟩⟩
  · intro undone v action i j member fails
    obtain ⟨_, _, t, transition⟩ := reached.of_mem_trace member
    obtain ⟨halt, iff⟩ := World.step_undone_iff transition fails
    exact iff.mp (undone v action i j t member transition fails halt)
  · intro recovers v action i j t member transition fails _
    exact (World.step_undone_iff transition fails).2.mpr (recovers v action i j member fails)
  · intro undone v action i j member fails
    obtain ⟨_, _, t, transition⟩ := reached'.of_mem_trace member
    obtain ⟨halt, never⟩ := World.readStep_not_undone transition fails
    exact never (undone v action i j t member transition fails halt)
  · intro none v action i j t member _ fails
    exact absurd fails (none v action i j member)

/-- Connection 9 chooses seats of the first train, whose seat 3 is free. -/
def SeatThreeFree (w : World) : Prop :=
  w.halt = none ∧ w.Live smallConfig 9 ∧ (w.requestP 9).status = .SEAT ∧
    (w.recordP 9).trainFd = 3 ∧
    ((w.store 9 "3".toList).addORcancel smallConfig 9 3).2 = some 1 ∧
    (w.files 3).bytes[4]? = some '0'

instance (w : World) : Decidable (SeatThreeFree w) := by
  unfold SeatThreeFree
  infer_instance

/-- A line whose calls succeed meets no failure, if its number is that of no seat before the
first. -/
theorem not_stepFails_sends {v : World} {i k : Nat} {text : String} {j : Fin TRAIN_NUM}
    (number : 1 ≤ atoi text.toList) (line : handleRead (text.toList ++ ['\n']) = .line text.toList) :
    ¬ v.StepFails smallConfig (sends k text) i j := by
  rintro ⟨chunk, env, text', same, line', fails⟩
  obtain ⟨rfl, rfl, rfl⟩ := Action.recv.inj same
  rw [line] at line'
  cases line'
  have quiet : ∀ site call, Env.quiet.fails site call = false := fun _ _ => rfl
  cases fails with
  | shift _ _ fails => simp [Env.occupiedFails, quiet] at fails
  | @seat _ _ index counted _ _ fails =>
    have stored : ((v.store k text.toList).requestP k).buf = text.toList := by
      simp [World.store, World.setRequest]
    rw [stored] at counted
    have inside : ¬ index < 0 := by omega
    simp [Env.checkFails, Env.blocks, quiet, inside] at fails

/-- Seat 3 is chosen, and the second `lseek` of the first call of `checkCurr` fails. -/
def choosesThree : Action :=
  .recv 9 "3\n".toList { failing := [(.checkSeek, 0)], junk := [] }

theorem SeatThreeFree.stepFails {v : World} (free : SeatThreeFree v) :
    v.StepFails smallConfig choosesThree 9 ⟨0, by decide⟩ ∧
      v.StepRecovers smallConfig choosesThree 9 ⟨0, by decide⟩ := by
  obtain ⟨_, _, seat, on, adds, cell⟩ := free
  have stored : (v.store 9 "3".toList).requestP 9 = { v.requestP 9 with buf := "3".toList } := by
    simp [World.store, World.setRequest]
  have command : (v.store 9 "3".toList).SeatCommand 9 := by
    unfold Tables.SeatCommand
    rw [stored]
    simp [seat]
  have number : atoi ((v.store 9 "3".toList).requestP 9).buf = 2 + 1 := by
    rw [stored]
    have three : atoi "3".toList = 2 + 1 := by decide
    exact three
  have found : ∀ call, (Env.found { failing := [(.checkSeek, 0)], junk := [] } (v.files 3) 2 call) =
      '0' := by
    intro call
    simp [Env.found, cell]
  refine ⟨⟨_, _, "3".toList, rfl, rfl, ?_⟩, _, _, "3".toList, rfl, rfl, command, ?_⟩
  · refine .seat command on number (by decide) adds (.inl (.inr (.inl ?_)))
    exact .inr (.inl (by decide))
  · refine ⟨.inl (.inr (.inl (by decide))), .inr ?_, ⟨by decide, ?_⟩, .inl (by decide)⟩
    · exact (found 1).symm ▸ by decide
    · exact (found 2).symm ▸ by decide

theorem SeatThreeFree.only {v : World} (free : SeatThreeFree v) {i : Nat} {j : Fin TRAIN_NUM}
    (fails : v.StepFails smallConfig choosesThree i j) : i = 9 ∧ j = ⟨0, by decide⟩ := by
  obtain ⟨_, _, seat, on, _⟩ := free
  obtain ⟨chunk, env, text, same, line, fails⟩ := fails
  obtain ⟨rfl, rfl, rfl⟩ := Action.recv.inj same
  refine ⟨rfl, ?_⟩
  cases fails with
  | shift selects =>
    have status : ((v.store 9 text).requestP 9).status = .SEAT := by
      simpa [World.store, World.setRequest] using seat
    have shift := selects.1
    rw [status] at shift
    cases shift
  | seat _ record =>
    have train : (v.recordP 9).trainFd = smallConfig.trains j := record
    rw [on] at train
    apply smallConfig.distinct
    exact (Int.ofNat.inj train).symm

/-- The first look at seat 3 fails. The second finds it free, and the client is disconnected. -/
theorem failure_undone :
    ∃ w run v t, smallServer.tracing.Reach (fun state => Machine.anyStep state.1) (w, run) ∧
      (v, choosesThree) ∈ run ∧ v.step smallConfig choosesThree = some t ∧
      v.StepFails smallConfig choosesThree 9 ⟨0, by decide⟩ ∧ Undone v t 9 3 := by
  have ran : (smallServer.tracing.exec (fun _ _ => true) (smallStart, [])
      [.accept 9, sends 9 "902001"]).map
        (fun state => decide (SeatThreeFree state.1) &&
          (state.1.step smallConfig choosesThree).isSome) = some true := by
    decide +kernel
  obtain ⟨⟨v, run⟩, runs, seen⟩ := Option.map_eq_some_iff.mp ran
  obtain ⟨free, possible⟩ := (Bool.and_eq_true _ _).mp seen
  obtain ⟨fails, recovers⟩ := SeatThreeFree.stepFails (of_decide_eq_true free)
  obtain ⟨t, transition⟩ := Option.isSome_iff_exists.mp possible
  have start : smallServer.tracing.Initial (smallStart, []) := ⟨rfl, rfl⟩
  have reached : smallServer.tracing.Reach (fun state => Machine.anyStep state.1) (v, run) :=
    Machine.Reach.exec (fun _ _ _ => trivial) (.initial start) runs
  have stepped : smallServer.tracing.step (v, run) choosesThree =
      some (t, run ++ [(v, choosesThree)]) := by
    change (World.step smallConfig v choosesThree).map _ = _
    rw [transition]
    rfl
  have further : smallServer.tracing.Reach (fun state => Machine.anyStep state.1)
      (t, run ++ [(v, choosesThree)]) := .step reached trivial stepped
  have reader : (readMachineSeeking smallConfig (fun _ => []) fun _ => freeTrain).tracing.Reach
      (fun state => Machine.anyStep state.1) (smallStart, []) := .initial ⟨rfl, rfl⟩
  have before : ∀ v' action i j, (v', action) ∈ run → ¬ v'.StepFails smallConfig action i j := by
    intro v' action i j member
    have actions := Machine.exec_tracing runs
    have known := List.mem_map_of_mem (f := Prod.snd) member
    rw [actions] at known
    simp only [List.map_nil, List.nil_append, List.mem_cons, List.not_mem_nil, or_false] at known
    rcases known with rfl | rfl
    · rintro ⟨_, _, _, same, _⟩
      cases same
    · exact not_stepFails_sends (by decide) rfl
  have undone := (failures_undone_iff further reader).1.mpr ?_
  · have member : (v, choosesThree) ∈ run ++ [(v, choosesThree)] := by simp
    obtain ⟨halt, _⟩ := World.step_undone_iff transition fails
    exact ⟨t, _, v, t, further, member, transition, fails,
      undone v _ 9 _ t member transition fails halt⟩
  · intro v' action i j member fails'
    rcases List.mem_append.mp member with old | new
    · exact absurd fails' (before v' action i j old)
    · obtain ⟨rfl, rfl⟩ := Prod.mk.inj (List.mem_singleton.mp new)
      obtain ⟨rfl, rfl⟩ := SeatThreeFree.only (of_decide_eq_true free) fails'
      exact recovers

/-- Train 902001 is selected, and the first read of `occupied` fails. -/
def selectsUnread : Action :=
  .recv 9 "902001\n".toList { failing := [(.occupiedRead, 0)], junk := [] }

/-- The client is told that the shift is fully booked and stays connected, and the file stays
locked. -/
theorem failure_not_undone :
    ∃ w t, smallServer.Reach Machine.anyStep w ∧ w.step smallConfig selectsUnread = some t ∧
      w.StepFails smallConfig selectsUnread 9 ⟨0, by decide⟩ ∧ ¬ Undone w t 9 3 ∧
      t.halt = none ∧ (t.files 3).locked = true ∧ ((9 : Int), fullMsg) ∈ t.sent := by
  have ran : (smallServer.exec (fun _ _ => true) smallStart [.accept 9]).map (fun w =>
      decide ((w.store 9 "902001".toList).ShiftLine 9 ∧
        smallConfig.trainFd (w.store 9 "902001".toList).readTrainNum = some 3) &&
      ((w.step smallConfig selectsUnread).any fun t =>
        decide (t.halt = none ∧ (t.files 3).locked = true ∧ ((9 : Int), fullMsg) ∈ t.sent))) =
      some true := by
    decide +kernel
  obtain ⟨w, runs, seen⟩ := Option.map_eq_some_iff.mp ran
  have reached : smallServer.Reach Machine.anyStep w :=
    Machine.Reach.exec (fun _ _ _ => trivial) (.initial rfl) runs
  obtain ⟨selects, left⟩ := (Bool.and_eq_true _ _).mp seen
  obtain ⟨line, looked⟩ := of_decide_eq_true selects
  obtain ⟨t, transition, told⟩ := (Option.any_eq_true _ _).mp left
  obtain ⟨halt, locked, sent⟩ := of_decide_eq_true told
  refine ⟨w, t, reached, transition, ?_, fun undone => ?_, halt, locked, sent⟩
  · exact ⟨_, _, "902001".toList, rfl, rfl, .shift line looked (.inl (.inl (by decide)))⟩
  · rw [undone.unlocked] at locked
    cases locked

end NTUSP.Server
