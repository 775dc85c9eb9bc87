import NTUSP.Server.Orphans

/-!
# The books, whatever calls fail

A call that fails inside `occupied` or `checkCurr` leaves a train file at some offset, and
perhaps locked. `settle` forgets both, and what is left are the books: requests, records and
the bytes of the train files. Reading leaves the books alone, and storing a cell, which
positions the file first, changes one byte.
-/

namespace NTUSP.Server

open NTUSP.Library CString

/-- The file rewound and unlocked. -/
def TrainFile.settle (f : TrainFile) : TrainFile := { f with offset := 0, locked := false }

/-- The tables with every train file rewound and unlocked. -/
def Tables.settle (t : Tables) : Tables := { t with files := fun fd => (t.files fd).settle }

@[simp] theorem TrainFile.settle_bytes (f : TrainFile) : f.settle.bytes = f.bytes := rfl

/-- Storing a cell positions the file, so it does not matter where it was. -/
theorem TrainFile.settle_put (f : TrainFile) (k : Nat) (c : Char) :
    (f.put k c).settle = f.settle.put k c := rfl

namespace Tables

@[simp] theorem settle_requestP (t : Tables) : t.settle.requestP = t.requestP := rfl

@[simp] theorem settle_recordP (t : Tables) : t.settle.recordP = t.recordP := rfl

section Books

variable {t u : Tables} (same : u.settle = t.settle)

include same

theorem requestP_of_settle : u.requestP = t.requestP := congrArg (fun t => t.requestP) same

theorem recordP_of_settle : u.recordP = t.recordP := congrArg (fun t => t.recordP) same

theorem bytes_of_settle (fd : Int) : (u.files fd).bytes = (t.files fd).bytes :=
  congrArg (fun t => (t.files fd).bytes) same

theorem closeConn_of_settle (i : Nat) : (u.closeConn i).settle = t.settle.closeConn i :=
  congrArg (fun t => t.closeConn i) same

end Books

@[simp] theorem settle_files (t : Tables) (fd : Int) :
    t.settle.files fd = (t.files fd).settle := rfl

theorem settle_rest (t : Tables) (fd : Int) : (t.settle.files fd).Rest := ⟨rfl, rfl⟩

/-- A file that changes in its offset and its lock only. -/
theorem settle_update {t : Tables} {fd : Int} {f : TrainFile} (same : f.bytes = (t.files fd).bytes) :
    { t with files := Function.update t.files fd f }.settle = t.settle := by
  unfold settle
  congr 1
  funext fd'
  by_cases here : fd' = fd
  · subst here
    simp [TrainFile.settle, same]
  · simp [here]

theorem settle_mark (t : Tables) (i k : Nat) (seat : Seat) (change fd : Int) (c : Char) :
    (t.mark i k seat change fd c).settle = t.settle.mark i k seat change fd c := by
  simp only [settle, mark, setRecord]
  congr 1
  funext fd'
  by_cases here : fd' = fd
  · subst here
    simp [TrainFile.settle_put]
  · simp [here]

/-- What a call of `checkCurr` finds about seat `k` of train `j`. -/
def code (cfg : Config) (env : Env) (t : Tables) (j : Fin TRAIN_NUM) (k call : Nat) : Int :=
  if env.fails .checkSeek call || env.fails .checkRead call then -1
  else cellCode ((t.seatByte cfg j k).getD (env.junk.getD call '\x00'))

end Tables

namespace World

variable {cfg : Config} {env : Env} {w t : World} {i k : Nat} {j : Fin TRAIN_NUM}

variable (cfg env w)

theorem lseek_settle (fd offset : Int) (fails : Bool) :
    (w.lseek cfg fd offset fails).1.settle = w.settle := by
  unfold lseek
  dsimp only
  split
  · rfl
  · exact Tables.settle_update rfl

theorem setLock_settle (fd : Int) (locked : Bool) :
    (w.setLock cfg fd locked).settle = w.settle := by
  unfold setLock
  split
  · exact Tables.settle_update rfl
  · rfl

theorem read_settle (fd : Int) (count : Nat) : (w.read fd count).1.settle = w.settle :=
  Tables.settle_update rfl

/-- What `occupied` and `checkCurr` end with. -/
theorem readBack_settle (fd : Int) (count : Nat) (fails : Bool) :
    (((w.read fd count).1.lseek cfg fd 0 fails).1.setLock cfg fd false).settle = w.settle := by
  rw [setLock_settle, lseek_settle, read_settle]

theorem occupied_settle (call : Nat) (fd : Int) :
    (w.occupied cfg env call fd).1.settle = w.settle := by
  unfold occupied
  dsimp only
  split
  · exact setLock_settle cfg w fd true
  · exact (readBack_settle cfg _ fd 1023 _).trans (setLock_settle cfg w fd true)

theorem checkCurr_settle (i call : Nat) (checkNum : Int) :
    (w.checkCurr cfg env call i checkNum).1.settle = w.settle := by
  have locked := (setLock_settle cfg (w.lseek cfg (w.recordP i).trainFd 0
    (env.fails .checkRewind call)).1 (w.recordP i).trainFd true).trans (lseek_settle cfg w _ _ _)
  unfold checkCurr
  dsimp only
  split
  · exact locked
  · have sought := (lseek_settle cfg _ (w.recordP i).trainFd (seatOffset (checkNum - 1))
      (env.fails .checkSeek call)).trans locked
    split
    · exact sought
    split
    · exact sought
    · exact (readBack_settle cfg _ _ 1 _).trans sought

variable {cfg env w}

/-! ## Calls on a train file -/

theorem lseek_halt (fd offset : Int) (fails : Bool) :
    (w.lseek cfg fd offset fails).1.halt = w.halt := by
  unfold lseek
  dsimp only
  split <;> rfl

theorem setLock_halt (locked : Bool) : (w.setLock cfg (cfg.trains j) locked).halt = w.halt := by
  simp [setLock, setFile]

theorem occupied_halt (call : Nat) : (w.occupied cfg env call (cfg.trains j)).1.halt = w.halt := by
  have locked : (w.setLock cfg (cfg.trains j) true).halt = w.halt := setLock_halt true
  unfold occupied
  dsimp only
  split
  · exact locked
  · rw [setLock_halt, lseek_halt]
    exact locked

variable (env) in
/-- `checkCurr` on a train file returns, whatever calls fail. -/
theorem checkCurr_returns (running : w.halt = none) (record : (w.recordP i).trainFd = cfg.trains j)
    (call : Nat) (checkNum : Int) :
    ∃ t code, w.checkCurr cfg env call i checkNum = (t, some code) ∧ t.halt = none ∧
      t.settle = w.settle := by
  have settled := checkCurr_settle cfg env w i call checkNum
  have locked : ((w.lseek cfg (cfg.trains j) 0 (env.fails .checkRewind call)).1.setLock cfg
      (cfg.trains j) true).halt = none := by
    rw [setLock_halt, lseek_halt, running]
  unfold checkCurr at settled ⊢
  dsimp only at settled ⊢
  rw [record] at settled ⊢
  rw [locked] at settled ⊢
  rw [if_neg (by simp)] at settled ⊢
  split
  · rename_i failed
    rw [if_pos failed] at settled
    exact ⟨_, _, rfl, by rw [lseek_halt, locked], settled⟩
  · rename_i sought
    rw [if_neg sought] at settled
    split
    · rename_i failed
      rw [if_pos failed] at settled
      exact ⟨_, _, rfl, by rw [lseek_halt, locked], settled⟩
    · rename_i reads
      rw [if_neg reads] at settled
      refine ⟨_, _, rfl, ?_, settled⟩
      rw [setLock_halt, lseek_halt]
      exact (lseek_halt ..).trans locked

variable (env) in
/-- What `checkCurr` returns for a seat of a train. -/
theorem checkCurr_found (running : w.halt = none) (record : (w.recordP i).trainFd = cfg.trains j)
    {checkNum : Int} (index : checkNum - 1 = k) (call : Nat) :
    (w.checkCurr cfg env call i checkNum).2 = some (w.code cfg env j k call) := by
  have bytes : (((w.lseek cfg (cfg.trains j) 0 (env.fails .checkRewind call)).1.setLock cfg
      (cfg.trains j) true).files (cfg.trains j)).bytes = (w.files (cfg.trains j)).bytes :=
    Tables.bytes_of_settle ((setLock_settle cfg _ (cfg.trains j) true).trans
      (lseek_settle cfg w _ _ _)) _
  have locked : ((w.lseek cfg (cfg.trains j) 0 (env.fails .checkRewind call)).1.setLock cfg
      (cfg.trains j) true).halt = none := by
    rw [setLock_halt, lseek_halt, running]
  have position : (seatOffset (checkNum - 1)).toNat = 2 * k := by
    rw [index, seatOffset_of_nat]
    omega
  have forward : ¬ seatOffset (checkNum - 1) < 0 := by
    rw [index, seatOffset_of_nat]
    omega
  unfold checkCurr Tables.code
  dsimp only
  rw [record, locked, if_neg (by simp)]
  generalize (w.lseek cfg (cfg.trains j) 0 (env.fails .checkRewind call)).1.setLock cfg
    (cfg.trains j) true = t at bytes
  cases sought : env.fails .checkSeek call with
  | true => simp [lseek]
  | false =>
    cases reads : env.fails .checkRead call with
    | true => simp [lseek, forward]
    | false =>
      simp [lseek, forward, read, setFile, log, position, head?_read, bytes, Tables.seatByte,
        TrainFile.cell]

/-- A seat that `checkCurr` reports as available has the cell `'0'`, if it has a cell. -/
theorem cell_of_checkCurr (record : (w.recordP i).trainFd = cfg.trains j) {call : Nat}
    {checkNum : Int} (index : checkNum - 1 = k)
    (available : (w.checkCurr cfg env call i checkNum).2 = some 0) :
    ∀ c, (w.files (cfg.trains j)).cell k = some c → c = '0' := by
  intro c cell
  have running : w.halt = none := by
    cases halted : w.halt with
    | none => rfl
    | some reason =>
      unfold checkCurr at available
      dsimp only at available
      rw [record, if_pos (by rw [setLock_halt, lseek_halt, halted]; rfl)] at available
      cases available
  rw [checkCurr_found env running record index call] at available
  have code := Option.some.inj available
  unfold Tables.code Tables.seatByte at code
  rw [cell] at code
  split at code
  · cases code
  · exact cellCode_eq_zero code

/-- A seat with a cell that `checkCurr` can read is reported as that cell. -/
theorem checkCurr_code (succeeds : env.Succeeds) (running : w.halt = none)
    (record : (w.recordP i).trainFd = cfg.trains j) (rest : (w.files (cfg.trains j)).Rest)
    {checkNum : Int} (index : checkNum - 1 = k) {c : Char}
    (cell : (w.files (cfg.trains j)).cell k = some c) (call : Nat) :
    (w.checkCurr cfg env call i checkNum).2 = some (cellCode c) := by
  rw [checkCurr_ok succeeds call running record rest index, cell]
  rfl

end World
end NTUSP.Server
