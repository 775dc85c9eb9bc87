import NTUSP.Server.Calls
import Mathlib.Logic.Relation

/-!
# What a request does to the tables

`Effect` lists the changes a well-behaved request makes to records, states and train
files. A request is then a few effects, or the end of its connection.
-/

namespace NTUSP.Server

open NTUSP.Library CString

namespace Tables

def setRequest (t : Tables) (i : Nat) (r : Request) : Tables :=
  { t with requestP := Function.update t.requestP i r }

def setRecord (t : Tables) (i : Nat) (r : Record) : Tables :=
  { t with recordP := Function.update t.recordP i r }

def setStatus (t : Tables) (i : Nat) (status : Status) : Tables :=
  t.setRequest i { t.requestP i with status := status }

def store (t : Tables) (i : Nat) (line : List Char) : Tables :=
  t.setRequest i { t.requestP i with buf := line }

def closeConn (t : Tables) (i : Nat) : Tables := (t.setRecord i initRecord).setRequest i freeRequest

def acceptConn (t : Tables) (fd : Nat) : Tables :=
  { t.setRequest fd { t.requestP fd with connFd := fd, status := .SHIFT } with connFd := fd }

/-- Connection `i` books on the train file `fd`. -/
def bind (t : Tables) (i : Nat) (shiftId fd : Int) : Tables :=
  (t.setRecord i { t.recordP i with shiftId := shiftId, trainFd := fd }).setStatus i .SEAT

@[simp] theorem bind_status (t : Tables) (i : Nat) (shiftId fd : Int) :
    ((t.bind i shiftId fd).requestP i).status = .SEAT := by
  simp [bind, setStatus, setRequest]

@[simp] theorem bind_record (t : Tables) (i : Nat) (shiftId fd : Int) :
    (t.bind i shiftId fd).recordP i = { t.recordP i with shiftId := shiftId, trainFd := fd } := by
  simp [bind, setStatus, setRequest, setRecord]

/-- Seat `k` of connection `i` and its cell in the file `fd` change together. -/
def mark (t : Tables) (i k : Nat) (seat : Seat) (change fd : Int) (c : Char) : Tables :=
  { t.setRecord i
      { (t.recordP i).setSeat k seat with
        numOfChosenSeats := (t.recordP i).numOfChosenSeats + change } with
    files := Function.update t.files fd ((t.files fd).put k c) }

/-- The train looked up for a shift request. -/
def readTrainNum (t : Tables) : Int := atoi (t.requestP t.connFd).buf - TRAIN_ID_START

end Tables

/-- The changes of a request within bounds. -/
inductive Effect (cfg : Config) (t : Tables) : Tables → Prop where
  | again {i : Nat} (booked : (t.requestP i).status = .BOOKED) : Effect cfg t (t.setStatus i .SEAT)
  | bind {i : Nat} {j : Fin TRAIN_NUM} (shift : (t.requestP i).status = .SHIFT)
      (line : (t.requestP i).buf ∈ shiftIds) (looked : t.readTrainNum = j)
      (room : (t.files (cfg.trains j)).full = false) :
      Effect cfg t (t.bind i (atoi (t.requestP i).buf) (cfg.trains j))
  | choose {i k : Nat} {j : Fin TRAIN_NUM} (seat : (t.requestP i).status = .SEAT)
      (record : (t.recordP i).trainFd = cfg.trains j) (bound : k < SEAT_NUM)
      (other : (t.recordP i).seatStat k ≠ .CHOSEN)
      (available : ∀ c, (t.files (cfg.trains j)).cell k = some c → c = '0') :
      Effect cfg t (t.mark i k .CHOSEN 1 (cfg.trains j) '2')
  | cancel {i k : Nat} {j : Fin TRAIN_NUM} (seat : (t.requestP i).status = .SEAT)
      (record : (t.recordP i).trainFd = cfg.trains j) (bound : k < SEAT_NUM)
      (chosen : (t.recordP i).seatStat k = .CHOSEN) :
      Effect cfg t (t.mark i k .UNKNOWN (-1) (cfg.trains j) '0')
  | pay {i k : Nat} {j : Fin TRAIN_NUM}
      (seat : (t.requestP i).status = .SEAT ∨ (t.requestP i).status = .BOOKED)
      (record : (t.recordP i).trainFd = cfg.trains j) (bound : k < SEAT_NUM)
      (chosen : (t.recordP i).seatStat k = .CHOSEN) :
      Effect cfg t ((t.mark i k .PAID (-1) (cfg.trains j) '1').setStatus i .BOOKED)

/-- A run of effects. -/
def Effects (cfg : Config) : Tables → Tables → Prop := Relation.ReflTransGen (Effect cfg)

/-- The byte of the seat is none that `checkCurr` knows. -/
def TrainFile.Unreadable (f : TrainFile) (k : Nat) : Prop :=
  ∀ c, f.cell k = some c → c ≠ '0' ∧ c ≠ '1' ∧ c ≠ '2'

theorem cellCode_eq_zero {c : Char} (zero : cellCode c = 0) : c = '0' := by
  unfold cellCode at zero
  split at zero
  · assumption
  · split at zero
    · cases zero
    · split at zero <;> cases zero

namespace World

variable {cfg : Config} {env : Env} {w : World} {i k : Nat} {j : Fin TRAIN_NUM} {n : Int}

theorem checkCurr_went (succeeds : env.Succeeds) (call : Nat) (running : w.halt = none)
    (record : (w.recordP i).trainFd = cfg.trains j) (rest : (w.files (cfg.trains j)).Rest)
    {checkNum : Int} (index : checkNum - 1 = k) :
    ∃ t, w.checkCurr cfg env call i checkNum =
        (t, some (cellCode (((w.files (cfg.trains j)).cell k).getD (env.junk.getD call '\x00')))) ∧
      Went n w t ∧ t.toTables = w.toTables := by
  refine ⟨_, checkCurr_ok succeeds call running record rest index, ?_, rfl⟩
  have zero : (Access.seek (cfg.trains j) 0).Fits n := Int.le_refl 0
  have position : (Access.seek (cfg.trains j) (2 * k : Nat)).Fits n := Int.natCast_nonneg _
  exact ((Went.log _ zero).trans (Went.log _ position)).trans (Went.log _ zero)

theorem setSeatStat_halt (inside : i < cfg.maxfd) (bound : k < SEAT_NUM) (seat : Seat) :
    (w.setSeatStat cfg i k seat).halt = w.halt := by
  rw [setSeatStat_ok inside bound]
  rfl

/-- The record entry and the cell of a seat change together. -/
theorem mark_ok (w : World) (inside : i < cfg.maxfd) (bound : k < SEAT_NUM) (seat : Seat)
    (change : Int) (c : Char) :
    Went n w
        (((w.setSeatStat cfg i k seat).addChosen i change).storeCell cfg (cfg.trains j) k c) ∧
      (((w.setSeatStat cfg i k seat).addChosen i change).storeCell cfg (cfg.trains j) k
        c).toTables = w.toTables.mark i k seat change (cfg.trains j) c := by
  rw [setSeatStat_ok inside bound, storeCell_ok c rfl]
  constructor
  · refine ⟨rfl, [.seat k, .seek (cfg.trains j) (2 * k : Nat), .seek (cfg.trains j) 0], ?_, ?_⟩
    · simp [log, setFile, addChosen, setRecord]
    · have range : 0 ≤ (k : Int) ∧ (k : Int) < SEAT_NUM := by omega
      have position : 0 ≤ ((2 * k : Nat) : Int) := Int.natCast_nonneg _
      simp only [List.mem_cons, List.not_mem_nil, or_false]
      rintro access (rfl | rfl | rfl)
      · exact range
      · exact position
      · exact Int.le_refl 0
  · simp [log, setFile, addChosen, setRecord, Tables.mark, Tables.setRecord]
    rfl

theorem closeConn_went (w : World) (i : Nat) : Went n w (w.closeConn i) := .of_same rfl rfl

theorem take_ok (running : w.halt = none) (inside : i < cfg.maxfd) (bound : k < SEAT_NUM)
    {bookNum : Int} (index : bookNum - 1 = k) :
    Went n w (w.take cfg i bookNum (cfg.trains j)) ∧
      (w.take cfg i bookNum (cfg.trains j)).toTables =
        w.toTables.mark i k .CHOSEN 1 (cfg.trains j) '2' := by
  obtain ⟨went, tables⟩ := mark_ok (j := j) (n := n) w inside bound .CHOSEN 1 '2'
  unfold take
  dsimp only
  rw [index, setSeatStat_halt inside bound, went.halt, running]
  simp only [Option.isSome_none, Bool.false_eq_true, if_false]
  exact ⟨went.trans (.of_same rfl rfl), tables⟩

theorem cancel_ok (running : w.halt = none) (inside : i < cfg.maxfd) (bound : k < SEAT_NUM)
    {bookNum : Int} (index : bookNum - 1 = k) :
    Went n w (w.cancel cfg i bookNum (cfg.trains j)) ∧
      (w.cancel cfg i bookNum (cfg.trains j)).toTables =
        w.toTables.mark i k .UNKNOWN (-1) (cfg.trains j) '0' := by
  obtain ⟨went, tables⟩ := mark_ok (j := j) (n := n) w inside bound .UNKNOWN (-1) '0'
  unfold cancel
  dsimp only
  rw [index, setSeatStat_halt inside bound, went.halt, running]
  simp only [Option.isSome_none, Bool.false_eq_true, if_false]
  exact ⟨went.trans (.of_same rfl rfl), tables⟩

/-- A choice of a seat in range takes it, answers that it is taken, or cannot read it. -/
theorem choose_ok (succeeds : env.Succeeds) (running : w.halt = none)
    (record : (w.recordP i).trainFd = cfg.trains j) (rest : (w.files (cfg.trains j)).Rest)
    (inside : i < cfg.maxfd) (bound : k < SEAT_NUM) {bookNum : Int} (index : bookNum - 1 = k) :
    Went n w (w.choose cfg env i bookNum (cfg.trains j)) ∧
      ((w.choose cfg env i bookNum (cfg.trains j)).toTables = w.toTables ∨
        ((∀ c, (w.files (cfg.trains j)).cell k = some c → c = '0') ∧
          (w.choose cfg env i bookNum (cfg.trains j)).toTables =
            w.toTables.mark i k .CHOSEN 1 (cfg.trains j) '2') ∨
        ((w.files (cfg.trains j)).Unreadable k ∧
          (w.choose cfg env i bookNum (cfg.trains j)).toTables = w.toTables.closeConn i)) := by
  obtain ⟨w₁, first, went₁, same₁⟩ :=
    checkCurr_went (n := n) succeeds 0 running record rest index
  have record₁ : (w₁.recordP i).trainFd = cfg.trains j := by
    rw [same₁]
    exact record
  have rest₁ : (w₁.files (cfg.trains j)).Rest := by
    rw [same₁]
    exact rest
  have running₁ := went₁.halt.trans running
  unfold choose
  rw [first]
  dsimp only
  split
  · rename_i available
    obtain ⟨went, tables⟩ := take_ok (j := j) (n := n) running₁ inside bound index
    refine ⟨went₁.trans went, .inr (.inl ⟨fun c cell => ?_, by rw [tables, same₁]⟩)⟩
    rw [cell] at available
    exact cellCode_eq_zero available
  rename_i notAvailable
  obtain ⟨w₂, second, went₂, same₂⟩ :=
    checkCurr_went (n := n) succeeds 1 running₁ record₁ rest₁ index
  have record₂ : (w₂.recordP i).trainFd = cfg.trains j := by
    rw [same₂]
    exact record₁
  have rest₂ : (w₂.files (cfg.trains j)).Rest := by
    rw [same₂]
    exact rest₁
  rw [second]
  dsimp only
  split
  · exact ⟨(went₁.trans went₂).trans (.of_same rfl rfl), .inl (same₂.trans same₁)⟩
  rename_i notBooked
  obtain ⟨w₃, third, went₃, same₃⟩ := checkCurr_went (n := n) succeeds 2
    (went₂.halt.trans running₁) record₂ rest₂ index
  have went := (went₁.trans went₂).trans went₃
  have same : w₃.toTables = w.toTables := same₃.trans (same₂.trans same₁)
  rw [third]
  dsimp only
  split
  · exact ⟨went.trans (.of_same rfl rfl), .inl same⟩
  · rename_i notLocked
    refine ⟨went.trans (closeConn_went w₃ i), .inr (.inr ⟨fun c cell => ?_, ?_⟩)⟩
    · rw [same₂, same₁, cell] at notLocked
      rw [same₁, cell] at notBooked
      rw [cell] at notAvailable
      refine ⟨?_, ?_, ?_⟩
      · rintro rfl
        exact notAvailable rfl
      · rintro rfl
        exact notBooked rfl
      · rintro rfl
        exact notLocked rfl
    · change w₃.toTables.closeConn i = _
      rw [same]

/-- A seat line in range is a choice or a cancellation of that seat. -/
theorem handleSeat_ok (succeeds : env.Succeeds) (running : w.halt = none)
    (seat : (w.requestP i).status = .SEAT) (record : (w.recordP i).trainFd = cfg.trains j)
    (rest : (w.files (cfg.trains j)).Rest) (inside : i < cfg.maxfd)
    (range : 1 ≤ atoi (w.requestP i).buf ∧ atoi (w.requestP i).buf ≤ SEAT_NUM) :
    Went n w (w.handleSeat cfg env i) ∧
      (Effects cfg w.toTables (w.handleSeat cfg env i).toTables ∨
        ((∃ k, k < SEAT_NUM ∧ (w.files (cfg.trains j)).Unreadable k) ∧
          (w.handleSeat cfg env i).toTables = w.toTables.closeConn i)) := by
  obtain ⟨k, index⟩ : ∃ k : Nat, atoi (w.requestP i).buf - 1 = k :=
    ⟨(atoi (w.requestP i).buf - 1).toNat, by omega⟩
  have bound : k < SEAT_NUM := by omega
  have fits : (Access.seat k).Fits n := by
    have within : 0 ≤ (k : Int) ∧ (k : Int) < SEAT_NUM := by omega
    exact within
  have logged := Went.log w fits
  unfold handleSeat
  dsimp only
  rw [addORcancel_ok inside bound index, record]
  dsimp only
  by_cases chosen : (w.recordP i).seatStat k = .CHOSEN
  · have again : ((w.log (.seat k)).recordP i).seatStat k = .CHOSEN := chosen
    rw [if_pos chosen, if_neg (by decide), addORcancel_ok inside bound index, if_pos again]
    dsimp only
    rw [if_pos rfl]
    obtain ⟨went, tables⟩ := cancel_ok (w := (w.log (.seat k)).log (.seat k)) (j := j)
      (n := n) running inside bound index
    refine ⟨(logged.trans (Went.log _ fits)).trans went, .inl ?_⟩
    rw [tables]
    exact .single (.cancel seat record bound chosen)
  · rw [if_neg chosen, if_pos (by decide), if_neg (by omega)]
    obtain ⟨went, outcome⟩ := choose_ok (w := w.log (.seat k)) (n := n) succeeds running
      record rest inside bound index
    refine ⟨logged.trans went, ?_⟩
    rcases outcome with same | ⟨available, marked⟩ | ⟨unreadable, closed⟩
    · rw [same]
      exact .inl .refl
    · rw [marked]
      exact .inl (.single (.choose seat record bound chosen available))
    · exact .inr ⟨⟨k, bound, unreadable⟩, closed⟩

/-- A turn of the payment loop pays a chosen seat and passes over the others. -/
theorem payStep_ok (running : w.halt = none)
    (seat : (w.requestP i).status = .SEAT ∨ (w.requestP i).status = .BOOKED)
    (record : (w.recordP i).trainFd = cfg.trains j) (bound : k < SEAT_NUM) :
    Went n w (payStep cfg i (cfg.trains j) w k) ∧
      Effects cfg w.toTables (payStep cfg i (cfg.trains j) w k).toTables ∧
      (((payStep cfg i (cfg.trains j) w k).requestP i).status = .SEAT ∨
        ((payStep cfg i (cfg.trains j) w k).requestP i).status = .BOOKED) ∧
      ((payStep cfg i (cfg.trains j) w k).recordP i).trainFd = cfg.trains j := by
  unfold payStep
  simp only [running, Option.isSome_none, Bool.false_eq_true, if_false]
  split
  · rename_i chosen
    have tables : ((((w.setRecord i ((w.recordP i).setSeat k .PAID)).setStatus i
        .BOOKED).addChosen i (-1)).storeCell cfg (cfg.trains j) k '1').toTables =
        (w.toTables.mark i k .PAID (-1) (cfg.trains j) '1').setStatus i .BOOKED := by
      rw [storeCell_ok '1' rfl]
      simp [log, setFile, addChosen, setRecord, setStatus, setRequest, Tables.mark,
        Tables.setRecord, Tables.setStatus, Tables.setRequest]
      rfl
    refine ⟨?_, ?_, ?_, ?_⟩
    · rw [storeCell_ok '1' rfl]
      refine ⟨rfl, [.seek (cfg.trains j) (2 * k : Nat), .seek (cfg.trains j) 0], ?_, ?_⟩
      · simp [log, setFile, addChosen, setRecord, setStatus, setRequest]
      · have position : 0 ≤ ((2 * k : Nat) : Int) := Int.natCast_nonneg _
        simp only [List.mem_cons, List.not_mem_nil, or_false]
        rintro access (rfl | rfl)
        · exact position
        · exact Int.le_refl 0
    · rw [tables]
      exact .single (.pay seat record bound chosen)
    · rw [tables]
      simp [Tables.setStatus, Tables.setRequest]
    · rw [tables]
      simpa [Tables.setStatus, Tables.setRequest, Tables.mark, Tables.setRecord, Record.setSeat]
        using record
  · exact ⟨.refl _ _, .refl, seat, record⟩

theorem payLoop_ok (seats : List Nat) (bounds : ∀ k ∈ seats, k < SEAT_NUM) (running : w.halt = none)
    (seat : (w.requestP i).status = .SEAT ∨ (w.requestP i).status = .BOOKED)
    (record : (w.recordP i).trainFd = cfg.trains j) :
    Went n w (seats.foldl (payStep cfg i (cfg.trains j)) w) ∧
      Effects cfg w.toTables (seats.foldl (payStep cfg i (cfg.trains j)) w).toTables := by
  induction seats generalizing w with
  | nil => exact ⟨.refl _ _, .refl⟩
  | cons k rest ih =>
    obtain ⟨went, effects, seat', record'⟩ := payStep_ok (n := n) running seat record
      (bounds k List.mem_cons_self)
    obtain ⟨went', effects'⟩ := ih
      (fun other member => bounds other (List.mem_cons_of_mem _ member))
      (went.halt.trans running) seat' record'
    exact ⟨went.trans went', effects.trans effects'⟩

theorem rewind_ok (rest : (w.files (cfg.trains j)).Rest) :
    (w.lseek cfg (cfg.trains j) 0 false).1 = w.log (.seek (cfg.trains j) 0) := by
  have same : ({ w.files (cfg.trains j) with offset := 0 } : TrainFile) =
      w.files (cfg.trains j) := by
    rw [← rest.offset]
  simp [lseek, setFile, log, same]

theorem pay_ok (running : w.halt = none) (seat : (w.requestP i).status = .SEAT)
    (record : (w.recordP i).trainFd = cfg.trains j) (rest : (w.files (cfg.trains j)).Rest) :
    Went n w (w.pay cfg i) ∧ Effects cfg w.toTables (w.pay cfg i).toTables := by
  unfold pay
  dsimp only
  split
  · exact ⟨.of_same rfl rfl, .refl⟩
  · rw [record, rewind_ok rest]
    have zero : (Access.seek (cfg.trains j) 0).Fits n := Int.le_refl 0
    have bounds : ∀ k ∈ List.range SEAT_NUM, k < SEAT_NUM := fun k => List.mem_range.mp
    obtain ⟨went, effects⟩ := payLoop_ok (w := w.log (.seek (cfg.trains j) 0)) (n := n)
      (List.range SEAT_NUM) bounds running (.inl seat) record
    generalize (List.range SEAT_NUM).foldl (payStep cfg i (cfg.trains j))
      (w.log (.seek (cfg.trains j) 0)) = paid at went effects ⊢
    have whole := (Went.log w zero).trans went
    rw [whole.halt, running]
    exact ⟨whole.trans (.of_same rfl rfl), effects⟩

variable (cfg n) in
/-- A line in `BOOKED` goes back to the seats or ends the connection. -/
theorem handleBooked_ok (booked : (w.requestP i).status = .BOOKED)
    (other : (w.requestP i).buf ≠ "exit".toList) :
    Went n w (w.handleBooked i) ∧
      (((w.requestP i).buf = "seat".toList ∧
          Effects cfg w.toTables (w.handleBooked i).toTables) ∨
        ((w.requestP i).buf ≠ "seat".toList ∧
          (w.handleBooked i).toTables = w.toTables.closeConn i)) := by
  unfold handleBooked
  rw [if_neg other]
  split
  · rename_i again
    exact ⟨.of_same rfl rfl, .inl ⟨again, .single (.again booked)⟩⟩
  · rename_i invalid
    exact ⟨.of_same rfl rfl, .inr ⟨invalid, rfl⟩⟩

/-- A shift line looks one train up and books on it if it has a free seat. -/
theorem handleShift_ok (succeeds : env.Succeeds)
    (line : (w.requestP i).buf ∈ shiftIds) (looked : w.readTrainNum = j)
    (rest : (w.files (cfg.trains j)).Rest) :
    Went j w (w.handleShift cfg env i) ∧
      (w.handleShift cfg env i).toTables =
        if (w.files (cfg.trains j)).full then w.toTables
        else w.toTables.bind i (atoi (w.requestP i).buf) (cfg.trains j) := by
  have fits : (Access.train j).Fits j := ⟨rfl, by omega, by omega⟩
  have zero : (Access.seek (cfg.trains j) 0).Fits j := Int.le_refl 0
  have index : atoi (w.requestP w.connFd).buf - TRAIN_ID_START = j := looked
  unfold handleShift
  rw [if_neg (not_not.mpr line)]
  dsimp only
  rw [index, cfg.trainFd_train j]
  dsimp only
  rw [occupied_ok (w := w.log (.train j)) succeeds 0 rest]
  dsimp only
  have logged := (Went.log w fits).trans (Went.log _ zero)
  have same : ((w.log (.train j)).files (cfg.trains j)).full = (w.files (cfg.trains j)).full := rfl
  rw [same]
  by_cases full : (w.files (cfg.trains j)).full = true
  · rw [if_pos full, if_pos (by decide), if_pos full]
    exact ⟨logged.trans (.of_same rfl rfl), rfl⟩
  · rw [if_neg full, if_neg (by decide), if_neg full]
    rw [occupied_ok (w := (w.log (.train j)).log (.seek (cfg.trains j) 0)) succeeds 1 rest]
    dsimp only
    have same' : (((w.log (.train j)).log (.seek (cfg.trains j) 0)).files (cfg.trains j)).full =
        (w.files (cfg.trains j)).full := rfl
    rw [same', if_neg full, if_pos rfl]
    exact ⟨(logged.trans (Went.log _ zero)).trans (.of_same rfl rfl), rfl⟩

end World
end NTUSP.Server
