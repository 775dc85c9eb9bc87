import NTUSP.Server.Crash
import NTUSP.Server.Survival

/-!
# Full shifts

`occupied` looks for a `'0'` in all the bytes of a train file, and `checkCurr` looks at the byte
of one seat. They agree as long as the file is a grid: each byte is the one of a seat, which both
can read, or a separator, which no client ever writes. Both start at the offset 0, where every
request leaves the file.
-/

namespace NTUSP.Server

open NTUSP.Library CString

/-- The byte behind seat `k`: a blank, or the end of the row. -/
def separator (k : Nat) : Char := if k % 4 = 3 then '\n' else ' '

/-- Ten rows of four seats, each with its separator. -/
structure Ruled (bytes : List Char) : Prop where
  length : bytes.length = 2 * SEAT_NUM
  separators : ∀ k < SEAT_NUM, bytes[2 * k + 1]? = some (separator k)

/-- A train file at the start: ten rows of four seats, each free or sold. -/
structure Grid (bytes : List Char) : Prop where
  ruled : Ruled bytes
  seats : ∀ k < SEAT_NUM, bytes[2 * k]? = some '0' ∨ bytes[2 * k]? = some '1'

theorem separator_ne {c : Char} (other : c ≠ '\n') (solid : c ≠ ' ') (k : Nat) :
    separator k ≠ c := by
  unfold separator
  split
  · exact Ne.symm other
  · exact Ne.symm solid

/-- Only bytes of seats change. -/
theorem Ruled.of_odd {bytes bytes' : List Char} (ruled : Ruled bytes)
    (length : bytes'.length = bytes.length)
    (odd : ∀ k, bytes'[2 * k + 1]? = bytes[2 * k + 1]?) : Ruled bytes' where
  length := length.trans ruled.length
  separators k bound := (odd k).trans (ruled.separators k bound)

/-- A byte of the grid is one of a seat or a separator. -/
theorem Ruled.mem {bytes : List Char} {c : Char} (ruled : Ruled bytes) (member : c ∈ bytes) :
    ∃ k < SEAT_NUM, bytes[2 * k]? = some c ∨ c = separator k := by
  obtain ⟨p, known⟩ := List.mem_iff_getElem?.mp member
  have inside : p < 2 * SEAT_NUM := by
    have less := (List.getElem?_eq_some_iff.mp known).1
    rwa [ruled.length] at less
  refine ⟨p / 2, by omega, ?_⟩
  rcases Nat.mod_two_eq_zero_or_one p with even | odd
  · rw [show 2 * (p / 2) = p by omega]
    exact .inl known
  · have place := ruled.separators (p / 2) (by omega)
    rw [show 2 * (p / 2) + 1 = p by omega, known] at place
    exact .inr (Option.some.inj place)

/-- `occupied` sees exactly the seats. -/
theorem TrainFile.full_iff {f : TrainFile} (ruled : Ruled f.bytes)
    (printed : ∀ k < SEAT_NUM, f.cell k ≠ some '\x00') :
    f.full = true ↔ ∀ k < SEAT_NUM, f.cell k ≠ some '0' := by
  have whole : f.bytes.take 1023 = f.bytes :=
    List.take_of_length_le (by rw [ruled.length]; decide)
  have text : cstr f.bytes = f.bytes := by
    refine List.takeWhile_eq_self_iff.mpr fun c member => ?_
    obtain ⟨k, bound, seat | other⟩ := ruled.mem member
    · have solid : c ≠ '\x00' := fun same => printed k bound (by rw [cell, seat, same])
      simpa using solid
    · simpa [other] using separator_ne (c := '\x00') (by decide) (by decide) k
  unfold full
  rw [whole, text, Bool.not_eq_true', ← Bool.not_eq_true, List.contains_iff_mem]
  constructor
  · intro absent k bound free
    exact absent (List.mem_iff_getElem?.mpr ⟨_, free⟩)
  · intro taken member
    obtain ⟨k, bound, seat | other⟩ := ruled.mem member
    · exact taken k bound seat
    · exact separator_ne (by decide) (by decide) k other.symm

namespace Tables

variable {cfg : Config} {t u : Tables} {i k : Nat} {j : Fin TRAIN_NUM}

/-- Every train file is a grid. -/
def Ruled (cfg : Config) (t : Tables) : Prop := ∀ j, Server.Ruled (t.files (cfg.trains j)).bytes

theorem Ruled.inside (ruled : t.Ruled cfg) (bound : k < SEAT_NUM) :
    2 * k < (t.files (cfg.trains j)).bytes.length := by
  rw [(ruled j).length]
  omega

/-- A marked seat is the byte of a seat. -/
theorem Ruled.mark (ruled : t.Ruled cfg) (bound : k < SEAT_NUM) (seat : Seat) (change : Int)
    (c : Char) : (t.mark i k seat change (cfg.trains j) c).Ruled cfg := by
  intro j'
  by_cases train : j' = j
  · subst train
    have bytes : ((t.mark i k seat change (cfg.trains j') c).files (cfg.trains j')).bytes =
        (t.files (cfg.trains j')).bytes.set (2 * k) c := by
      simpa [Tables.mark] using TrainFile.put_bytes (ruled.inside bound) c
    rw [bytes]
    refine (ruled j').of_odd List.length_set fun k' => ?_
    exact List.getElem?_set_ne (by omega)
  · simpa [Tables.mark, trains_ne train] using ruled j'

/-- So are the bytes of a payment. -/
theorem Ruled.pay (ruled : t.Ruled cfg) : (t.payTurns i (cfg.trains j) SEAT_NUM).Ruled cfg := by
  intro j'
  by_cases train : j' = j
  · subst train
    have inside : ∀ k < SEAT_NUM, (t.recordP i).seatStat k = .CHOSEN →
        2 * k < (t.files (cfg.trains j')).bytes.length := fun k bound _ => ruled.inside bound
    obtain ⟨length, bytes⟩ := payTurns_bytes inside
    refine (ruled j').of_odd length fun k => ?_
    rcases bytes (2 * k + 1) with same | ⟨k', _, place, _⟩
    · exact same
    · omega
  · rw [payTurns_elsewhere (trains_ne train)]
    exact ruled j'

end Tables

section

variable {cfg : Config} {w : World} {i : Nat} {events : List SeatEvent} {u : Tables}

theorem Deed.ruled (deed : Deed cfg w i events u) (ruled : w.settle.Ruled cfg) : u.Ruled cfg := by
  cases deed with
  | nothing => exact ruled
  | closed => exact ruled
  | again booked => exact ruled
  | bind shift => exact ruled
  | choose line index bound record other available => exact ruled.mark bound _ _ _
  | cancel line index bound record chosen => exact ruled.mark bound _ _ _
  | pay seat line record some => exact ruled.pay

theorem Turn.ruled {action : Action} (turn : Turn cfg w action events u)
    (ruled : w.settle.Ruled cfg) : u.Ruled cfg := by
  cases turn with
  | accept free => exact ruled
  | close live => exact ruled
  | line live received deed => exact deed.ruled ruled

end

variable {cfg : Config} {heap : Nat → List Char} {disk : Fin TRAIN_NUM → List Char} {w : World}

/-- `init_server` opens each train file on its own descriptor. -/
theorem initServer_bytes (cfg : Config) (heap : Nat → List Char)
    (disk : Fin TRAIN_NUM → List Char) (j : Fin TRAIN_NUM) :
    ((World.initServer cfg heap disk).files (cfg.trains j)).bytes = disk j := by
  have found : ((List.finRange TRAIN_NUM).find? fun j' =>
      decide ((cfg.trains j' : Int) = cfg.trains j)) = some j := cfg.trainOf_trains j
  simp only [World.initServer]
  rw [found]
  rfl

theorem ruled_reached (grids : ∀ j, Grid (disk j))
    (reached : (machine cfg heap disk).Reach inRange w) : w.settle.Ruled cfg := by
  apply books_invariant (Tables.Ruled cfg) _ _ reached
  · intro j
    change Ruled ((World.initServer cfg heap disk).files (cfg.trains j)).bytes
    rw [initServer_bytes]
    exact (grids j).ruled
  · intro w action events u _ ruled turn
    exact turn.ruled ruled

/-- The process goes on while the lines are in range. -/
theorem running_reached (reached : (machine cfg heap disk).Reach withinBounds w) :
    w.halt = none := by
  apply reached.invariant (fun w => w.halt = none)
  · rintro w rfl
    rfl
  · intro w action t prior running allowed transition
    have sound := sound_reached (prior.mono fun _ _ allowed => allowed.1)
    obtain ⟨n, went⟩ := (World.step_ok sound allowed.1.1 allowed.1.2 transition).1 allowed.2
    exact went.halt.trans running

/-- What a look-up finds. -/
theorem World.lookUp_code {env : Env} (succeeds : env.Succeeds) (running : w.halt = none)
    {i k : Nat} {j : Fin TRAIN_NUM} (rest : (w.files (cfg.trains j)).Rest) {c : Char}
    (cell : (w.files (cfg.trains j)).cell k = some c) :
    w.lookUp cfg env i j k = some (cellCode c) := by
  have index : (k : Int) + 1 - 1 = k := by omega
  exact checkCurr_code (w := w.setRecord i { initRecord with trainFd := cfg.trains j })
    succeeds running (by simp [setRecord]) rest index cell 0

/-- From train files with ten rows of four seats, every train file is at the offset 0 in every
state of a run whose calls succeed and whose lines are in range. There `occupied` says that the
shift is full if `checkCurr` finds no seat available, and that it is not full if it finds one. -/
theorem occupied_of_lookUp (grids : ∀ j, Grid (disk j))
    (reached : (machine cfg heap disk).Reach withinBounds w) (j : Fin TRAIN_NUM) :
    (w.files (cfg.trains j)).offset = 0 ∧
      ∀ env, env.Succeeds → ∀ i call,
        ((∀ k < SEAT_NUM, ∃ code, w.lookUp cfg env i j k = some code ∧ code ≠ 0) →
          (w.occupied cfg env call (cfg.trains j)).2 = 1) ∧
        ((∃ k < SEAT_NUM, w.lookUp cfg env i j k = some 0) →
          (w.occupied cfg env call (cfg.trains j)).2 = 0) := by
  have sound := sound_reached (reached.mono fun _ _ allowed => allowed.1)
  have rest := sound.rest j
  have inRange : (machine cfg heap disk).Reach inRange w := reached.mono fun _ _ both => both.1.2
  have kept : w.Kept cfg := kept_reached (fun j k bound => (grids j).seats k bound) inRange
  have ruled : Ruled (w.files (cfg.trains j)).bytes := ruled_reached grids inRange j
  have cells : ∀ k < SEAT_NUM, ∃ seat : Seat, (w.files (cfg.trains j)).cell k = some seat.byte :=
    fun k bound => kept.seated.readable j k bound
  have full := TrainFile.full_iff ruled fun k bound => by
    obtain ⟨seat, cell⟩ := cells k bound
    rw [cell]
    cases seat <;> decide
  refine ⟨rest.offset, fun env succeeds i call => ?_⟩
  have looks : ∀ k < SEAT_NUM, (w.lookUp cfg env i j k = some 0 ↔
      (w.files (cfg.trains j)).cell k = some '0') := by
    intro k bound
    obtain ⟨seat, cell⟩ := cells k bound
    rw [World.lookUp_code succeeds (running_reached reached) rest cell, cell]
    cases seat <;> decide
  rw [World.occupied_ok succeeds call rest]
  constructor
  · intro taken
    refine if_pos (full.mpr fun k bound free => ?_)
    obtain ⟨code, found, other⟩ := taken k bound
    rw [(looks k bound).mpr free] at found
    exact other (Option.some.inj found).symm
  · rintro ⟨k, bound, found⟩
    exact if_neg fun holds => full.mp holds k bound ((looks k bound).mp found)

/-- A train file with 40 sold seats. -/
def soldTrain : List Char := (List.replicate 10 "1 1 1 1\n".toList).flatten

theorem first_lt : 0 < TRAIN_NUM := by decide

theorem second_lt : 1 < TRAIN_NUM := by decide

def firstShift : Fin TRAIN_NUM := ⟨0, first_lt⟩

def secondShift : Fin TRAIN_NUM := ⟨1, second_lt⟩

/-- The second shift is sold out, the others are free. -/
def mixedTrains (j : Fin TRAIN_NUM) : List Char :=
  if j = secondShift then soldTrain else freeTrain

theorem mixedTrains_grid (j : Fin TRAIN_NUM) : Grid (mixedTrains j) := by
  have free : freeTrain.length = 2 * SEAT_NUM ∧
      ∀ k < SEAT_NUM, freeTrain[2 * k + 1]? = some (separator k) ∧
        freeTrain[2 * k]? = some '0' := by decide +kernel
  have sold : soldTrain.length = 2 * SEAT_NUM ∧
      ∀ k < SEAT_NUM, soldTrain[2 * k + 1]? = some (separator k) ∧
        soldTrain[2 * k]? = some '1' := by decide +kernel
  unfold mixedTrains
  split
  · exact ⟨⟨sold.1, fun k bound => (sold.2 k bound).1⟩, fun k bound => .inr (sold.2 k bound).2⟩
  · exact ⟨⟨free.1, fun k bound => (free.2 k bound).1⟩, fun k bound => .inl (free.2 k bound).2⟩

/-- A client chooses seat 3 of the first shift, which stays open, while the second is full. -/
theorem occupied_second_shift :
    ∃ w, (machine smallConfig (fun _ => []) mixedTrains).Reach withinBounds w ∧
      (w.recordP 9).numOfChosenSeats = 1 ∧
      (w.occupied smallConfig .quiet 0 (smallConfig.trains firstShift)).2 = 0 ∧
      (w.occupied smallConfig .quiet 0 (smallConfig.trains secondShift)).2 = 1 := by
  have ran : ((machine smallConfig (fun _ => []) mixedTrains).exec
      (fun w action => withinBounds w action)
      (World.initServer smallConfig (fun _ => []) mixedTrains)
      [.accept 9, sends 9 "902001", sends 9 "3"]).map
        (fun w => ((w.recordP 9).numOfChosenSeats, w.lookUp smallConfig .quiet 9 firstShift 3,
          decide (∀ k < SEAT_NUM, w.lookUp smallConfig .quiet 9 secondShift k = some 1))) =
      some (1, some 0, true) := by
    decide +kernel
  obtain ⟨w, reached, known⟩ := Machine.Reach.of_ran rfl ran
  obtain ⟨chosen, rest⟩ := Prod.mk.inj known
  obtain ⟨free, sold⟩ := Prod.mk.inj rest
  refine ⟨w, reached, chosen, ?_, ?_⟩
  · exact ((occupied_of_lookUp mixedTrains_grid reached firstShift).2 .quiet rfl 9 0).2
      ⟨3, by decide, free⟩
  · exact ((occupied_of_lookUp mixedTrains_grid reached secondShift).2 .quiet rfl 9 0).1
      fun k bound => ⟨1, of_decide_eq_true sold k bound, by decide⟩

end NTUSP.Server
