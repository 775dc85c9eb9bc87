import NTUSP.Library.Numerals
import NTUSP.Server.Model

/-!
# The booking info

`print_train_info` builds the lists of the chosen and the paid seats in arrays of fixed size,
number by number, and prints them into a third one. `printTrainInfoArrays` checks every write into
the arrays; what they hold is the message of the model, and its lists can be read back.
-/

namespace NTUSP.Server

open NTUSP.Library CString

/-! ## The arrays -/

/-- `snprintf(tmp, size, ...)`: what does not fit is cut. -/
def snprintf (size : Nat) (text : List Char) : List Char := text.take (size - 1)

/-- `sprintf` into an array of `size` bytes, if the text fits with its NUL. -/
def sprintf (size : Nat) (text : List Char) : Option (List Char) :=
  if text.length + 1 ≤ size then some text else none

/-- `strncat(dest, src, n)` in an array of `size` bytes, if the result fits with its NUL. -/
def strncat (size : Nat) (dest src : List Char) (n : Nat) : Option (List Char) :=
  if (dest ++ src.take n).length + 1 ≤ size then some (dest ++ src.take n) else none

/-- A turn of the loops over the seats, with `first` and the array of the list. -/
def seatListTurn (r : Record) (status : Seat) (loop : Bool × List Char) (i : Nat) :
    Option (Bool × List Char) :=
  let (first, text) := loop
  let (first, tmp) :=
    if r.seatStat i = status then
      (false, snprintf 32 ((if first then [] else [',']) ++ numeral (i + 1)))
    else (first, [])
  (strncat MAX_MSG_LEN text tmp 32).map fun text => (first, text)

/-- The list of the seats with a status, in its array. -/
def seatListArray (r : Record) (status : Seat) : Option (List Char) :=
  ((List.range SEAT_NUM).foldlM (seatListTurn r status) (true, [])).map (·.2)

/-- `print_train_info` up to its `write`, if no array is too small. -/
def printTrainInfoArrays (r : Record) : Option (List Char) := do
  let chosenSeat ← seatListArray r .CHOSEN
  let paid ← seatListArray r .PAID
  sprintf (MAX_MSG_LEN * 3) ("\nBooking info\n|- Shift ID: ".toList ++ (toString r.shiftId).toList ++
    "\n|- Chose seat(s): ".toList ++ chosenSeat ++ "\n|- Paid: ".toList ++ paid ++ "\n\n".toList)

theorem snprintf_fits {size : Nat} {text : List Char} (short : text.length < size) :
    snprintf size text = text := List.take_of_length_le (by omega)

theorem sprintf_fits {size : Nat} {text : List Char} (short : text.length < size) :
    sprintf size text = some text := if_pos short

theorem strncat_fits {size n : Nat} {dest src : List Char} (short : src.length ≤ n)
    (room : (dest ++ src).length < size) : strncat size dest src n = some (dest ++ src) := by
  unfold strncat
  rw [List.take_of_length_le short]
  exact if_pos room

/-! ## The lists -/

/-- The numbers of the first `count` seats that have a status. -/
def Record.seatsBelow (r : Record) (status : Seat) (count : Nat) : List Nat :=
  ((List.range count).filter fun i => r.seatStat i = status).map (· + 1)

variable {r : Record} {status : Seat} {count k : Nat}

theorem Record.seatsBelow_succ (r : Record) (status : Seat) (count : Nat) :
    r.seatsBelow status (count + 1) =
      r.seatsBelow status count ++ if r.seatStat count = status then [count + 1] else [] := by
  by_cases marked : r.seatStat count = status
  · simp [seatsBelow, List.range_succ, marked]
  · simp [seatsBelow, List.range_succ, marked]

theorem Record.mem_seatsBelow :
    k ∈ r.seatsBelow status count ↔ ∃ i < count, k = i + 1 ∧ r.seatStat i = status := by
  simp only [seatsBelow, List.mem_map, List.mem_filter, List.mem_range, decide_eq_true_eq]
  constructor
  · rintro ⟨i, ⟨less, marked⟩, rfl⟩
    exact ⟨i, less, rfl, marked⟩
  · rintro ⟨i, less, rfl, marked⟩
    exact ⟨i, ⟨less, marked⟩, rfl⟩

/-- The seats are listed in increasing order. -/
theorem Record.seatsBelow_increasing (r : Record) (status : Seat) (count : Nat) :
    (r.seatsBelow status count).Pairwise (· < ·) := by
  refine List.pairwise_map.mpr ?_
  refine (List.pairwise_lt_range.filter _).imp ?_
  exact fun less => Nat.succ_lt_succ less

/-- The text of the first `count` seats. -/
def Record.listBelow (r : Record) (status : Seat) (count : Nat) : List Char :=
  [','].intercalate ((r.seatsBelow status count).map numeral)

theorem Record.listBelow_succ (r : Record) (status : Seat) (count : Nat) :
    r.listBelow status (count + 1) =
      r.listBelow status count ++
        if r.seatStat count = status then
          (if r.seatsBelow status count = [] then [] else [',']) ++ numeral (count + 1)
        else [] := by
  unfold listBelow
  rw [seatsBelow_succ]
  by_cases marked : r.seatStat count = status
  · rw [if_pos marked, if_pos marked, List.map_append, List.map_singleton, intercalate_concat,
      List.append_assoc]
    simp
  · rw [if_neg marked, if_neg marked, List.append_nil, List.append_nil]

/-- The text of a seat: a separator and two digits at most. -/
theorem Record.length_entry (r : Record) (status : Seat) (few : count < SEAT_NUM) :
    ((if r.seatsBelow status count = [] then [] else [',']) ++ numeral (count + 1)).length ≤ 3 := by
  have short : (numeral (count + 1)).length ≤ 2 :=
    (length_numeral_le (by decide)).mpr (by unfold SEAT_NUM at few; omega)
  rw [List.length_append]
  split
  · rw [List.length_nil]
    omega
  · rw [List.length_singleton]
    omega

theorem Record.length_listBelow (few : count ≤ SEAT_NUM) :
    (r.listBelow status count).length ≤ 3 * count := by
  induction count with
  | zero => exact Nat.le_refl 0
  | succ count ih =>
    have before := ih (Nat.le_of_succ_le few)
    have entry := length_entry r status few
    rw [listBelow_succ, List.length_append]
    split
    · omega
    · rw [List.length_nil]
      omega

/-- `print_train_info` lists the seats with their numbers. -/
theorem seatList_eq_listBelow (r : Record) (status : Seat) :
    seatList r status = r.listBelow status SEAT_NUM := by
  have loop : ∀ count, (List.range count).foldl
      (fun (first, text) i =>
        if r.seatStat i = status then
          (false, text ++ (if first then [] else [',']) ++ (toString (i + 1)).toList)
        else (first, text))
      (true, []) = (decide (r.seatsBelow status count = []), r.listBelow status count) := by
    intro count
    induction count with
    | zero => rfl
    | succ count ih =>
      rw [List.range_succ, List.foldl_append, ih, Record.listBelow_succ, Record.seatsBelow_succ]
      by_cases marked : r.seatStat count = status
      · simp [marked, numeral]
      · simp [marked]
  exact congrArg Prod.snd (loop SEAT_NUM)

/-- A turn leaves no array and cuts no number. -/
theorem seatListTurn_eq (few : count < SEAT_NUM) :
    seatListTurn r status (decide (r.seatsBelow status count = []), r.listBelow status count) count =
      some (decide (r.seatsBelow status (count + 1) = []), r.listBelow status (count + 1)) := by
  have room : (r.listBelow status (count + 1)).length < MAX_MSG_LEN := by
    have bound : (r.listBelow status (count + 1)).length ≤ 3 * (count + 1) :=
      Record.length_listBelow few
    unfold MAX_MSG_LEN
    unfold SEAT_NUM at few
    omega
  have entry := r.length_entry status few
  rw [Record.listBelow_succ] at room ⊢
  rw [Record.seatsBelow_succ]
  unfold seatListTurn
  by_cases marked : r.seatStat count = status
  · simp only [if_pos marked, decide_eq_true_eq] at room ⊢
    rw [snprintf_fits (by omega), strncat_fits (by omega) room]
    simp
  · simp only [if_neg marked, List.append_nil] at room ⊢
    rw [strncat_fits (Nat.zero_le 32) (by rwa [List.append_nil]), List.append_nil]
    rfl

/-- The array of a list holds the list. -/
theorem seatListArray_eq (r : Record) (status : Seat) :
    seatListArray r status = some (seatList r status) := by
  have loop : ∀ count ≤ SEAT_NUM, (List.range count).foldlM (seatListTurn r status) (true, []) =
      some (decide (r.seatsBelow status count = []), r.listBelow status count) := by
    intro count
    induction count with
    | zero => exact fun _ => rfl
    | succ count ih =>
      intro few
      rw [List.range_succ, List.foldlM_append, ih (Nat.le_of_succ_le few)]
      simpa using seatListTurn_eq few
  unfold seatListArray
  rw [loop SEAT_NUM (Nat.le_refl _), seatList_eq_listBelow]
  rfl

/-! ## The message -/

/-- `shift_id` is an `int`. -/
def Record.ShiftFits (r : Record) : Prop := -2147483648 ≤ r.shiftId ∧ r.shiftId ≤ 2147483647

/-- What follows a label, up to the end of its line. -/
def infoField (label info : List Char) : Option (List Char) :=
  ((info.splitOn '\n').find? label.isPrefixOf).map (·.drop label.length)

/-- A text is the list of some seats: their numerals, read back by splitting it. -/
structure Lists (text : List Char) (seats : List Nat) : Prop where
  joined : text = [','].intercalate (seats.map numeral)
  increasing : seats.Pairwise (· < ·)
  back : numbers ',' text = seats.map Int.ofNat

/-- The list of a status is one of exactly the seats that have it. -/
theorem lists_seatList (r : Record) (status : Seat) :
    Lists (seatList r status) (r.seatsBelow status SEAT_NUM) := by
  have inside : ∀ n ∈ r.seatsBelow status SEAT_NUM, n < 2147483648 := by
    intro n member
    obtain ⟨i, less, rfl, _⟩ := Record.mem_seatsBelow.mp member
    unfold SEAT_NUM at less
    omega
  rw [seatList_eq_listBelow]
  exact
    { joined := rfl
      increasing := r.seatsBelow_increasing status SEAT_NUM
      back := numbers_intercalate (by decide) inside }

/-- A list has no line end. -/
theorem not_mem_seatList (r : Record) (status : Seat) : '\n' ∉ seatList r status := by
  rw [seatList_eq_listBelow]
  refine not_mem_intercalate (by decide) fun text member => ?_
  obtain ⟨n, _, rfl⟩ := List.mem_map.mp member
  exact not_mem_numeral (by decide) n

/-- The lines of the message. -/
theorem splitOn_printTrainInfo (r : Record) :
    (printTrainInfo r).splitOn '\n' =
      [[], "Booking info".toList, "|- Shift ID: ".toList ++ (toString r.shiftId).toList,
        "|- Chose seat(s): ".toList ++ seatList r .CHOSEN, "|- Paid: ".toList ++ seatList r .PAID,
        [], []] := by
  have lines : printTrainInfo r = ['\n'].intercalate
      [[], "Booking info".toList, "|- Shift ID: ".toList ++ (toString r.shiftId).toList,
        "|- Chose seat(s): ".toList ++ seatList r .CHOSEN, "|- Paid: ".toList ++ seatList r .PAID,
        [], []] := by
    unfold printTrainInfo
    generalize seatList r .CHOSEN = chosen, seatList r .PAID = paid
    simp [List.intercalate_cons_cons]
  have other : '\n'.isDigit = false := by decide
  have shift : '\n' ∉ "|- Shift ID: ".toList ++ (toString r.shiftId).toList := by
    refine List.not_mem_append (by decide) ?_
    rcases toString_toList r.shiftId with plain | signed
    · exact plain ▸ not_mem_numeral other r.shiftId.natAbs
    · exact signed ▸ List.not_mem_cons_of_ne_of_not_mem (by decide)
        (not_mem_numeral other r.shiftId.natAbs)
  rw [lines]
  refine List.splitOn_intercalate '\n' (fun line member => ?_) (List.cons_ne_nil _ _)
  simp only [List.mem_cons, List.not_mem_nil, or_false] at member
  rcases member with rfl | rfl | rfl | rfl | rfl | rfl | rfl
  · exact List.not_mem_nil
  · decide
  · exact shift
  · exact List.not_mem_append (by decide) (not_mem_seatList r .CHOSEN)
  · exact List.not_mem_append (by decide) (not_mem_seatList r .PAID)
  · exact List.not_mem_nil
  · exact List.not_mem_nil

/-- The message fits into its array. -/
theorem length_printTrainInfo (fits : r.ShiftFits) :
    (printTrainInfo r).length < MAX_MSG_LEN * 3 := by
  have list : ∀ status, (seatList r status).length ≤ 3 * SEAT_NUM := fun status => by
    rw [seatList_eq_listBelow]
    exact Record.length_listBelow (Nat.le_refl _)
  have chosen := list .CHOSEN
  have paid := list .PAID
  have shift : (toString r.shiftId).toList.length ≤ 11 := by
    obtain ⟨lower, upper⟩ := fits
    have short : (numeral r.shiftId.natAbs).length ≤ 10 :=
      (length_numeral_le (by decide)).mpr (by omega)
    rcases toString_toList r.shiftId with plain | signed
    · rw [plain]
      omega
    · rw [signed, List.length_cons]
      omega
  unfold SEAT_NUM at chosen paid
  have whole : (printTrainInfo r).length = 58 + (toString r.shiftId).toList.length +
      (seatList r .CHOSEN).length + (seatList r .PAID).length := by
    unfold printTrainInfo
    generalize seatList r .CHOSEN = chosen, seatList r .PAID = paid
    generalize (toString r.shiftId).toList = shiftId
    simp
    omega
  unfold MAX_MSG_LEN
  omega

/-- The arrays of `print_train_info` are large enough, and hold the message. -/
theorem printTrainInfoArrays_eq (fits : r.ShiftFits) :
    printTrainInfoArrays r = some (printTrainInfo r) := by
  unfold printTrainInfoArrays
  rw [seatListArray_eq, seatListArray_eq]
  exact sprintf_fits (length_printTrainInfo fits)

/-- For every assignment of the seats the arrays are large enough, and the fields of the message
are the lists of exactly the chosen and the paid seats. -/
theorem info_round_trip (fits : r.ShiftFits) :
    ∃ info chosen paid,
      printTrainInfoArrays r = some info ∧
      (∃ text, infoField "|- Chose seat(s): ".toList info = some text ∧ Lists text chosen) ∧
      (∃ text, infoField "|- Paid: ".toList info = some text ∧ Lists text paid) ∧
      (∀ k, k ∈ chosen ↔ ∃ i < SEAT_NUM, k = i + 1 ∧ r.seatStat i = .CHOSEN) ∧
      ∀ k, k ∈ paid ↔ ∃ i < SEAT_NUM, k = i + 1 ∧ r.seatStat i = .PAID := by
  refine ⟨printTrainInfo r, r.seatsBelow .CHOSEN SEAT_NUM, r.seatsBelow .PAID SEAT_NUM,
    printTrainInfoArrays_eq fits, ⟨seatList r .CHOSEN, ?_, lists_seatList r .CHOSEN⟩,
    ⟨seatList r .PAID, ?_, lists_seatList r .PAID⟩, fun k => Record.mem_seatsBelow,
    fun k => Record.mem_seatsBelow⟩
  · unfold infoField
    rw [splitOn_printTrainInfo]
    rfl
  · unfold infoField
    rw [splitOn_printTrainInfo]
    rfl

/-- Seats of one digit and of two, with both statuses. -/
def mixedRecord : Record where
  shiftId := 902003
  trainFd := 5
  numOfChosenSeats := 2
  seatStat i := if i = 2 ∨ i = 39 then .CHOSEN else if i = 0 ∨ i = 11 then .PAID else .UNKNOWN

theorem info_round_trip_mixed :
    seatList mixedRecord .CHOSEN = "3,40".toList ∧ seatList mixedRecord .PAID = "1,12".toList ∧
    ∃ info chosen paid,
      printTrainInfoArrays mixedRecord = some info ∧
      (∃ text, infoField "|- Chose seat(s): ".toList info = some text ∧ Lists text chosen) ∧
      (∃ text, infoField "|- Paid: ".toList info = some text ∧ Lists text paid) ∧
      (∀ k, k ∈ chosen ↔ ∃ i < SEAT_NUM, k = i + 1 ∧ mixedRecord.seatStat i = .CHOSEN) ∧
      ∀ k, k ∈ paid ↔ ∃ i < SEAT_NUM, k = i + 1 ∧ mixedRecord.seatStat i = .PAID :=
  ⟨by decide +kernel, by decide +kernel, info_round_trip ⟨by decide, by decide⟩⟩

end NTUSP.Server
