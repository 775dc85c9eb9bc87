import NTUSP.Server.Frames

/-!
# The parts of a request, when all goes well

With a train file at rest, a train descriptor in the record and a seat in range, the
train files are left at rest, every index and position is in bounds and the process
goes on. Each lemma says that much, and which table entries have changed.
-/

namespace NTUSP.Server

open NTUSP.Library CString

/-- An access within the arrays and files, where `train` is the one train looked up. -/
def Access.Fits (train : Int) : Access → Prop
  | .train index => index = train ∧ 0 ≤ index ∧ index < TRAIN_NUM
  | .seat index => 0 ≤ index ∧ index < SEAT_NUM
  | .seek _ offset => 0 ≤ offset

/-- Between `w` and `t` the process went on, with accesses within bounds. -/
structure Went (train : Int) (w t : World) : Prop where
  halt : t.halt = w.halt
  trace : ∃ more, t.trace = w.trace ++ more ∧ ∀ access ∈ more, access.Fits train

theorem Went.refl (train : Int) (w : World) : Went train w w where
  halt := rfl
  trace := grown_refl rfl

theorem Went.trans {train : Int} {w t u : World} (first : Went train w t)
    (second : Went train t u) : Went train w u where
  halt := second.halt.trans first.halt
  trace := grown_trans first.trace second.trace

/-- Whatever leaves the trace and the end of the process alone. -/
theorem Went.of_same {train : Int} {w t : World} (halt : t.halt = w.halt)
    (trace : t.trace = w.trace) : Went train w t where
  halt := halt
  trace := grown_refl trace

theorem Went.log {train : Int} (w : World) {access : Access} (fits : access.Fits train) :
    Went train w (w.log access) where
  halt := rfl
  trace := ⟨[access], rfl, by simpa using fits⟩

/-- A train file between two requests. -/
structure TrainFile.Rest (f : TrainFile) : Prop where
  offset : f.offset = 0
  locked : f.locked = false

/-- The content of a seat's byte. -/
def TrainFile.cell (f : TrainFile) (k : Nat) : Option Char := f.bytes[2 * k]?

/-- No `'0'` among the bytes `occupied` reads. -/
def TrainFile.full (f : TrainFile) : Bool := !(cstr (f.bytes.take 1023)).contains '0'

/-- The file behind a stored cell. -/
def TrainFile.put (f : TrainFile) (k : Nat) (c : Char) : TrainFile :=
  { (({ f with offset := 2 * k } : TrainFile).write c) with offset := 0, locked := false }

theorem Config.trainFd_train (cfg : Config) (j : Fin TRAIN_NUM) :
    cfg.trainFd j = some (cfg.trains j : Int) := by
  have bounds := j.isLt
  simp [trainFd, bounds]

/-- The train a descriptor is open on. -/
def Config.trainOf (cfg : Config) (fd : Int) : Option (Fin TRAIN_NUM) :=
  (List.finRange TRAIN_NUM).find? fun j => (cfg.trains j : Int) = fd

theorem Config.trainOf_trains (cfg : Config) (j : Fin TRAIN_NUM) :
    cfg.trainOf (cfg.trains j) = some j := by
  unfold trainOf
  cases found : (List.finRange TRAIN_NUM).find? fun j' =>
      decide ((cfg.trains j' : Int) = cfg.trains j) with
  | none => simpa using List.find?_eq_none.mp found j (List.mem_finRange j)
  | some j' =>
    have same : (cfg.trains j' : Int) = cfg.trains j := by simpa using List.find?_some found
    exact congrArg some (cfg.distinct (Int.ofNat.inj same))

theorem exists_train {n : Int} (inside : 0 ≤ n ∧ n < TRAIN_NUM) : ∃ j : Fin TRAIN_NUM, n = j :=
  ⟨⟨n.toNat, by omega⟩, (Int.toNat_of_nonneg inside.1).symm⟩

/-- A number outside the table names no train file. -/
theorem Config.trainFd_outside (cfg : Config) {n : Int} (outside : ¬ (0 ≤ n ∧ n < TRAIN_NUM)) :
    cfg.trainFd n = none := by
  unfold trainFd
  rw [dif_neg]
  omega

namespace World

variable {cfg : Config} {env : Env} {w : World} {i k : Nat} {j : Fin TRAIN_NUM}

@[simp] theorem isTrain_trains (cfg : Config) (j : Fin TRAIN_NUM) :
    cfg.isTrain (cfg.trains j) = true := by
  simp [Config.isTrain]

theorem fails_of_succeeds (succeeds : env.Succeeds) (site : Site) (call : Nat) :
    env.fails site call = false := by
  unfold Env.Succeeds at succeeds
  simp [Env.fails, succeeds]

theorem seatOffset_of_nat (k : Nat) : seatOffset k = (2 * k : Nat) := by
  unfold seatOffset
  rw [Int.tdiv_eq_ediv_of_nonneg (by omega), Int.tmod_eq_emod_of_nonneg (by omega)]
  omega

/-- Rewinding and unlocking a file at rest gives the file back. -/
theorem update_rest (rest : (w.files (cfg.trains j)).Rest) :
    Function.update w.files (cfg.trains j)
      { bytes := (w.files (cfg.trains j)).bytes, offset := 0, locked := false } = w.files := by
  have same : ({ bytes := (w.files (cfg.trains j)).bytes, offset := 0, locked := false } :
      TrainFile) = w.files (cfg.trains j) := by
    rw [← rest.offset, ← rest.locked]
  rw [same, Function.update_eq_self]

/-- Reading one byte. -/
theorem head?_read (bytes : List Char) (n : Nat) :
    ((bytes.drop n).take 1).head? = bytes[n]? := by
  rw [List.head?_take, if_neg (by decide), List.head?_drop]

/-- `occupied` tells whether the file is full. -/
theorem occupied_ok (succeeds : env.Succeeds) (call : Nat)
    (rest : (w.files (cfg.trains j)).Rest) :
    w.occupied cfg env call (cfg.trains j) =
      (w.log (.seek (cfg.trains j) 0), if (w.files (cfg.trains j)).full then 1 else 0) := by
  simp [occupied, setLock, read, lseek, setFile, log, fails_of_succeeds succeeds, rest.offset,
    update_rest rest, TrainFile.full]

/-- `checkCurr` reads the cell of a seat. -/
theorem checkCurr_ok (succeeds : env.Succeeds) (call : Nat) (running : w.halt = none)
    (record : (w.recordP i).trainFd = cfg.trains j) (rest : (w.files (cfg.trains j)).Rest)
    {checkNum : Int} (index : checkNum - 1 = k) :
    w.checkCurr cfg env call i checkNum =
      (((w.log (.seek (cfg.trains j) 0)).log (.seek (cfg.trains j) (2 * k : Nat))).log
        (.seek (cfg.trains j) 0),
        some (cellCode (((w.files (cfg.trains j)).cell k).getD (env.junk.getD call '\x00')))) := by
  have forward : ¬ 2 * (k : Int) < 0 := by omega
  have position : (2 * (k : Int)).toNat = 2 * k := by omega
  simp [checkCurr, setLock, read, lseek, setFile, log, fails_of_succeeds succeeds,
    update_rest rest, index, seatOffset_of_nat, record, running, forward, position, head?_read,
    TrainFile.cell]

/-- Storing a cell changes the content of one file. -/
theorem storeCell_ok (c : Char) {index : Int} (seat : index = k) :
    w.storeCell cfg (cfg.trains j) index c =
      ((w.log (.seek (cfg.trains j) (2 * k : Nat))).log (.seek (cfg.trains j) 0)).setFile
        (cfg.trains j) ((w.files (cfg.trains j)).put k c) := by
  have forward : ¬ 2 * (k : Int) < 0 := by omega
  have position : (2 * (k : Int)).toNat = 2 * k := by omega
  simp [storeCell, setLock, lseek, setFile, log, seat, seatOffset_of_nat, forward, position,
    TrainFile.write, TrainFile.put]

/-- A seat in range is a word of its own record. -/
theorem seatWord_ok (inside : i < cfg.maxfd) (bound : k < SEAT_NUM) :
    seatWord cfg i k = some (WORDS * i + (k + 3)) := by
  have block : WORDS * i + WORDS ≤ WORDS * cfg.maxfd := Nat.mul_le_mul_left WORDS inside
  have words : WORDS = 3 + SEAT_NUM := rfl
  unfold seatWord
  dsimp only
  rw [← Int.natCast_mul, ← Int.natCast_mul, if_pos (by omega)]
  congr 1
  omega

theorem word_div (bound : k < SEAT_NUM) : (WORDS * i + (k + 3)) / WORDS = i := by
  simp only [WORDS, SEAT_NUM] at bound ⊢
  omega

theorem word_mod (bound : k < SEAT_NUM) : (WORDS * i + (k + 3)) % WORDS = k + 3 := by
  simp only [WORDS, SEAT_NUM] at bound ⊢
  omega

theorem toInt_eq_chosen (seat : Seat) : seat.toInt = Seat.CHOSEN.toInt ↔ seat = .CHOSEN := by
  cases seat <;> decide

theorem addORcancel_ok (inside : i < cfg.maxfd) (bound : k < SEAT_NUM) {seatINP : Int}
    (index : seatINP - 1 = k) :
    w.addORcancel cfg i seatINP =
      (w.log (.seat k), some (if (w.recordP i).seatStat k = .CHOSEN then 0 else 1)) := by
  simp only [addORcancel, index, seatWord_ok inside bound, word_div bound, word_mod bound,
    Record.word]
  simp only [log, toInt_eq_chosen]
  split <;> rfl

theorem setSeatStat_ok (inside : i < cfg.maxfd) (bound : k < SEAT_NUM) (seat : Seat) :
    w.setSeatStat cfg i k seat =
      (w.log (.seat k)).setRecord i ((w.recordP i).setSeat k seat) := by
  simp only [setSeatStat, seatWord_ok inside bound, word_div bound, word_mod bound,
    Record.setWord]
  rfl

/-- Seat 0 is the counter of the chosen seats. -/
theorem seatWord_counter (inside : i < cfg.maxfd) :
    seatWord cfg i (-1) = some (WORDS * i + 2) ∧ (WORDS * i + 2) / WORDS = i ∧
      (WORDS * i + 2) % WORDS = 2 := by
  have block : WORDS * i + WORDS ≤ WORDS * cfg.maxfd := Nat.mul_le_mul_left WORDS inside
  have words : WORDS = 43 := rfl
  refine ⟨?_, ?_, ?_⟩
  · unfold seatWord
    dsimp only
    rw [← Int.natCast_mul, ← Int.natCast_mul, if_pos (by omega)]
    congr 1
    omega
  · simp only [WORDS, SEAT_NUM]
    omega
  · simp only [WORDS, SEAT_NUM]
    omega

theorem addORcancel_zero (w : World) (inside : i < cfg.maxfd) :
    w.addORcancel cfg i 0 =
      (w.log (.seat (-1)), some (if (w.recordP i).numOfChosenSeats = 1 then 0 else 1)) := by
  obtain ⟨word, owner, place⟩ := seatWord_counter inside
  unfold addORcancel
  dsimp only
  rw [show (0 : Int) - 1 = -1 from rfl, word]
  dsimp only
  rw [owner, place]
  have counter : ((w.log (.seat (-1))).recordP i).word 2 = Seat.CHOSEN.toInt ↔
      (w.recordP i).numOfChosenSeats = 1 := Iff.rfl
  by_cases one : (w.recordP i).numOfChosenSeats = 1
  · rw [if_pos (counter.mpr one), if_pos one]
  · rw [if_neg (counter.not.mpr one), if_neg one]

theorem setSeatStat_counter (inside : i < cfg.maxfd) (seat : Seat) :
    w.setSeatStat cfg i (-1) seat =
      (w.log (.seat (-1))).setRecord i { w.recordP i with numOfChosenSeats := seat.toInt } := by
  obtain ⟨word, owner, place⟩ := seatWord_counter inside
  unfold setSeatStat
  dsimp only
  rw [word]
  dsimp only
  rw [owner, place]
  rfl

end World
end NTUSP.Server
