import NTUSP.Server.Reaction

/-!
# The lines of a connection in `SEAT`

A line should be `exit`, `pay` or the numeral of a seat, and any other line should be
answered as an invalid operation. `atoi` decides instead: it takes `4a` for seat 4, numbers
without a seat are looked up beside the seats, and only a line that is no number is invalid,
unless the counter of chosen seats, which stands in for seat 0, happens to be 1.
-/

namespace NTUSP.Server

open NTUSP.Library CString

/-- The seat whose number, counted from 1, is written in decimal. -/
def seatNumber (line : List Char) : Option Nat :=
  (List.range SEAT_NUM).find? fun k => line = (toString (k + 1)).toList

/-- What a line in `SEAT` should leave, and the messages its client should get. -/
def seatGrammar (q : Request) (r : Record) (code : Nat → Nat → Int) : Edit × List (List Char) :=
  if q.buf = "exit".toList then (.ended, [exitMsg])
  else if q.buf = "pay".toList then reactPay q r
  else
    match seatNumber q.buf with
    | some k => if r.seatStat k = .CHOSEN then reactCancel q r k else reactChoose q r k (code k)
    | none => (.ended, [invalidOpMsg])

theorem atoi_of_seatNumber {line : List Char} {k : Nat} (number : seatNumber line = some k) :
    k < SEAT_NUM ∧ atoi line - 1 = k ∧ line ≠ "exit".toList ∧ line ≠ "pay".toList := by
  have found := List.find?_some number
  have bound : k < SEAT_NUM := List.mem_range.mp (List.mem_of_find?_eq_some number)
  have value : ∀ k, k < SEAT_NUM → atoi (toString (k + 1)).toList - 1 = k ∧
      (toString (k + 1)).toList ≠ "exit".toList ∧ (toString (k + 1)).toList ≠ "pay".toList := by
    decide +kernel
  have spelled : line = (toString (k + 1)).toList := by simpa using found
  rw [spelled]
  exact ⟨bound, value k bound⟩

namespace Tables

/-- The line of connection `i` is one of those that are handled as they should be. -/
def Grammatical (t : Tables) (i : Nat) : Prop :=
  (t.requestP i).buf = "exit".toList ∨ (t.requestP i).buf = "pay".toList ∨
    seatNumber (t.requestP i).buf ≠ none ∨
    (atoi (t.requestP i).buf = 0 ∧ (t.recordP i).numOfChosenSeats ≠ 1)

instance (t : Tables) (i : Nat) : Decidable (t.Grammatical i) := by
  unfold Grammatical
  infer_instance

variable {t : Tables} {i : Nat}

theorem Grammatical.seatOrNone (grammatical : t.Grammatical i) :
    t.SeatOrNone i ∧ ¬ t.Slips i := by
  have zero : atoi (t.requestP i).buf = 0 → t.SeatOrNone i := by
    intro none _
    rw [none]
    decide
  rcases grammatical with exits | pays | number | ⟨none, other⟩
  · exact ⟨fun line => absurd exits line.2.1, fun slips => slips.1.2.1 exits⟩
  · exact ⟨fun line => absurd pays line.2.2, fun slips => slips.1.2.2 pays⟩
  · obtain ⟨k, known⟩ := Option.ne_none_iff_exists'.mp number
    obtain ⟨bound, index, _⟩ := atoi_of_seatNumber known
    refine ⟨fun _ => ⟨by omega, by omega⟩, fun slips => ?_⟩
    have none := slips.2.1
    omega
  · exact ⟨zero none, fun slips => other slips.2.2⟩

end Tables

/-- What a line in `SEAT` does is what it should do, for lines within the grammar. -/
theorem react_eq_seatGrammar {q : Request} {r : Record} {code : Nat → Nat → Int}
    (seat : q.status = .SEAT)
    (line : q.buf = "exit".toList ∨ q.buf = "pay".toList ∨ seatNumber q.buf ≠ none ∨
      atoi q.buf = 0) :
    react q r (code (atoi q.buf - 1).toNat) = seatGrammar q r code := by
  have booked : q.status ≠ .BOOKED := by simp [seat]
  unfold react seatGrammar
  by_cases exits : q.buf = "exit".toList
  · rw [if_pos exits, if_pos exits]
  rw [if_neg exits, if_neg exits, if_neg booked]
  by_cases pays : q.buf = "pay".toList
  · rw [if_pos pays, if_pos pays]
  rw [if_neg pays, if_neg pays]
  cases number : seatNumber q.buf with
  | some k =>
    obtain ⟨_, index, _⟩ := atoi_of_seatNumber number
    have some : ¬ atoi q.buf = 0 := by omega
    have place : (atoi q.buf - 1).toNat = k := by omega
    rw [if_neg some, place]
  | none =>
    have zero : atoi q.buf = 0 :=
      ((line.resolve_left exits).resolve_left pays).resolve_left fun some => some number
    rw [if_pos zero]

namespace World

variable {cfg : Config} {env : Env} {w t : World} {i : Nat} {j : Fin TRAIN_NUM}

/-- The stored line of connection `i`, which is on train `j`, is handled as it should be. -/
def Obeys (cfg : Config) (env : Env) (w : World) (i : Nat) (j : Fin TRAIN_NUM) : Prop :=
  Did w (w.handleLine cfg env i) i (cfg.trains j)
    (seatGrammar (w.requestP i) (w.recordP i) (w.code cfg env j))

theorem obeys_of_grammatical (running : w.halt = none) (inside : i < cfg.maxfd)
    (seat : (w.requestP i).status = .SEAT) (on : w.On cfg i j) (grammatical : w.Grammatical i) :
    w.Obeys cfg env i j := by
  obtain ⟨range, kept⟩ := grammatical.seatOrNone
  have did : Did w (w.handleLine cfg env i) i (cfg.trains j) (w.reaction cfg env i j) :=
    handleLine_did running inside (.inl seat) on range kept
  have same : w.reaction cfg env i j =
      seatGrammar (w.requestP i) (w.recordP i) (w.code cfg env j) :=
    react_eq_seatGrammar seat
      (grammatical.imp id fun rest => rest.imp id fun rest => rest.imp id And.left)
  rw [same] at did
  exact did

/-! ## Invalid operations -/

/-- How many clients have been told that their operation is invalid. -/
def rejections (w : World) : Nat := w.sent.countP fun message => message.2 = invalidOpMsg

theorem rejections_of_sent (sent : t.sent = w.sent) : t.rejections = w.rejections := by
  unfold rejections
  rw [sent]

theorem rejections_send (w : World) (i : Nat) {text : List Char} (other : text ≠ invalidOpMsg) :
    (w.send i text).rejections = w.rejections := by
  simp [rejections, send, other]

theorem rejections_sendInfo (w : World) (i : Nat) :
    (w.sendInfo i).rejections = w.rejections := by
  have starts : (printTrainInfo (w.recordP i)).head? = some '\n' := by
    unfold printTrainInfo
    simp only [List.append_assoc, List.head?_append]
    rfl
  apply rejections_send
  intro same
  rw [same] at starts
  exact absurd starts (by decide)

theorem setSeatStat_sent (w : World) (i : Nat) (index : Int) (seat : Seat) :
    (w.setSeatStat cfg i index seat).sent = w.sent := by
  unfold setSeatStat
  dsimp only
  split <;> rfl

variable (cfg) in
theorem addORcancel_sent (w : World) (i : Nat) (seatINP : Int) :
    (w.addORcancel cfg i seatINP).1.sent = w.sent := by
  unfold addORcancel
  dsimp only
  split
  · rfl
  · split <;> rfl

theorem rejections_take (w : World) (i : Nat) (bookNum trainFd : Int) :
    (w.take cfg i bookNum trainFd).rejections = w.rejections := by
  have marked : ((w.setSeatStat cfg i (bookNum - 1) .CHOSEN).addChosen i 1 |>.storeCell cfg trainFd
      (bookNum - 1) '2').sent = w.sent :=
    (storeCell_sent _ trainFd (bookNum - 1) '2').trans (setSeatStat_sent w i (bookNum - 1) .CHOSEN)
  unfold take
  dsimp only
  split
  · exact rejections_of_sent (setSeatStat_sent w i (bookNum - 1) .CHOSEN)
  split
  · exact rejections_of_sent marked
  · rw [rejections_send _ _ (by decide), rejections_sendInfo]
    exact rejections_of_sent marked

theorem rejections_cancel (w : World) (i : Nat) (bookNum trainFd : Int) :
    (w.cancel cfg i bookNum trainFd).rejections = w.rejections := by
  have marked : ((w.setSeatStat cfg i (bookNum - 1) .UNKNOWN).addChosen i (-1) |>.storeCell cfg
      trainFd (bookNum - 1) '0').sent = w.sent :=
    (storeCell_sent _ trainFd (bookNum - 1) '0').trans (setSeatStat_sent w i (bookNum - 1) .UNKNOWN)
  unfold cancel
  dsimp only
  split
  · exact rejections_of_sent (setSeatStat_sent w i (bookNum - 1) .UNKNOWN)
  split
  · exact rejections_of_sent marked
  · rw [rejections_send _ _ (by decide), rejections_sendInfo, rejections_send _ _ (by decide)]
    exact rejections_of_sent marked

theorem rejections_choose (w : World) (i : Nat) (bookNum trainFd : Int) :
    (w.choose cfg env i bookNum trainFd).rejections = w.rejections := by
  have first := checkCurr_sent cfg env w i 0 bookNum
  unfold choose
  split
  · rename_i t found
    rw [found] at first
    exact rejections_of_sent first
  rename_i t result found
  rw [found] at first
  split
  · rw [rejections_take]
    exact rejections_of_sent first
  have second := (checkCurr_sent cfg env t i 1 bookNum).trans first
  split
  · rename_i t' found'
    rw [found'] at second
    exact rejections_of_sent second
  rename_i t' result' found'
  rw [found'] at second
  split
  · rw [rejections_send _ _ (by decide), rejections_send _ _ (by decide)]
    exact rejections_of_sent second
  have third := (checkCurr_sent cfg env t' i 2 bookNum).trans second
  split
  · rename_i t'' found''
    rw [found''] at third
    exact rejections_of_sent third
  rename_i t'' result'' found''
  rw [found''] at third
  split
  · rw [rejections_send _ _ (by decide), rejections_send _ _ (by decide)]
    exact rejections_of_sent third
  · exact rejections_of_sent third

variable (cfg env) in
/-- A line that is a number is never answered as an invalid operation. -/
theorem rejections_handleSeat (w : World) (i : Nat) (number : atoi (w.requestP i).buf ≠ 0) :
    (w.handleSeat cfg env i).rejections = w.rejections := by
  have first := addORcancel_sent cfg w i (atoi (w.requestP i).buf)
  unfold handleSeat
  dsimp only
  split
  · rename_i t found
    rw [found] at first
    exact rejections_of_sent first
  rename_i t result found
  rw [found] at first
  rw [if_neg number]
  split
  · rw [rejections_choose]
    exact rejections_of_sent first
  have second := (addORcancel_sent cfg t i (atoi (w.requestP i).buf)).trans first
  split
  · rename_i t' found'
    rw [found'] at second
    exact rejections_of_sent second
  rename_i t' result' found'
  rw [found'] at second
  split
  · rw [rejections_cancel]
    exact rejections_of_sent second
  · rw [rejections_send _ _ (by decide)]
    exact rejections_of_sent second

/-- A line outside the grammar is not handled as it should be: it ends the process, or it is a
number and no invalid operation. -/
theorem grammatical_of_obeys (inside : i < cfg.maxfd) (running : w.halt = none)
    (seat : (w.requestP i).status = .SEAT) (obeys : w.Obeys cfg env i j) : w.Grammatical i := by
  by_contra outside
  unfold Tables.Grammatical at outside
  push Not at outside
  obtain ⟨exits, pays, number, slips⟩ := outside
  have line : w.SeatLine i := ⟨seat, exits, pays⟩
  have expected : seatGrammar (w.requestP i) (w.recordP i) (w.code cfg env j) =
      (.ended, [invalidOpMsg]) := by
    unfold seatGrammar
    rw [if_neg exits, if_neg pays, number]
  unfold Obeys at obeys
  rw [expected, handleLine_seatLine line] at obeys
  by_cases none : atoi (w.requestP i).buf = 0
  · have halts := (handleSeat_slips env running ⟨line, none, slips none⟩ inside).1
    rw [obeys.halt] at halts
    cases halts
  · have quiet := rejections_handleSeat cfg env w i none
    unfold rejections at quiet
    rw [obeys.sent, List.countP_append] at quiet
    simp at quiet

end World

/-- A step that brings a connection in `SEAT` no line outside the grammar. -/
def grammatical (w : World) (action : Action) : Prop :=
  w.OnLine (fun u i => (u.requestP i).status = .SEAT → u.Grammatical i) action

instance (w : World) (action : Action) : Decidable (grammatical w action) :=
  inferInstanceAs (Decidable (w.OnLine (fun u i => (u.requestP i).status = .SEAT →
    u.Grammatical i) action))

section

variable {cfg : Config} {heap : Nat → List Char} {disk : Fin TRAIN_NUM → List Char} {w : World}
  {i : Nat}

theorem Tables.Grammatical.inRange {t : Tables} (grammatical : t.Grammatical i)
    (number : atoi (t.requestP i).buf ≠ 0) : t.SeatInRange i := by
  intro line
  obtain ⟨low, high⟩ := grammatical.seatOrNone.1 line
  exact ⟨by omega, high⟩

/-- A line within the grammar keeps the slots of the books in order. -/
theorem World.sound_handleLine {env : Env} (sound : w.settle.Sound cfg) (running : w.halt = none)
    (live : w.Live cfg i) (allowed : (w.requestP i).status = .SEAT → w.Grammatical i) :
    (w.handleLine cfg env i).settle.Sound cfg := by
  by_cases word : w.SeatLine i ∧ atoi (w.requestP i).buf = 0
  · -- `SeatInRange` does not cover this line. It ends the connection.
    obtain ⟨line, zero⟩ := word
    have noNumber : seatNumber (w.requestP i).buf = none := by
      cases number : seatNumber (w.requestP i).buf with
      | none => rfl
      | some k =>
        obtain ⟨_, index, _⟩ := atoi_of_seatNumber number
        omega
    obtain ⟨j, on⟩ := sound.bound i (.inl line.1)
    have obeys : w.Obeys cfg env i j :=
      obeys_of_grammatical running live.1 line.1 on (allowed line.1)
    have expected : seatGrammar (w.requestP i) (w.recordP i) (w.code cfg env j) =
        (.ended, [invalidOpMsg]) := by
      unfold seatGrammar
      rw [if_neg line.2.1, if_neg line.2.2, noNumber]
    unfold Obeys at obeys
    rw [expected] at obeys
    rw [obeys.books, Tables.edit_ended]
    exact sound.closeConn live
  · have range : w.SeatInRange i := fun line =>
      (allowed line.1).inRange (fun zero => word ⟨line, zero⟩) line
    exact (handleLine_deed sound running live range).sound sound live

/-- The slots of the books are in order in every run whose lines are within the grammar. -/
theorem sound_grammatical (reached : (machine cfg heap disk).Reach grammatical w) :
    w.settle.Sound cfg := by
  apply reached.invariant (fun w => w.settle.Sound cfg)
  · rintro w rfl
    exact World.initServer_sound cfg heap disk
  · intro w action t _ sound allowed transition
    obtain ⟨running, stepped⟩ := World.step_cases transition
    cases stepped with
    | accept free => exact sound.acceptConn free
    | close live => exact sound.closeConn live
    | @line i text env live received =>
      exact World.sound_handleLine (w := w.store i text) (sound.store i text) running
        (Tables.live_store.mpr live) (allowed _ received)

/-- In every run whose lines are within the grammar a connection in `SEAT` is on a train, and its
next line is handled as it should be exactly if it is within the grammar too. -/
theorem obeys_iff_grammatical (reached : (machine cfg heap disk).Reach grammatical w)
    (running : w.halt = none) (seat : (w.requestP i).status = .SEAT) :
    ∃ j, w.On cfg i j ∧ ∀ line env,
      (w.store i line).Obeys cfg env i j ↔ (w.store i line).Grammatical i := by
  have sound := sound_grammatical reached
  obtain ⟨j, on⟩ := sound.bound i (.inl seat)
  have live : w.Live cfg i := (sound.live i).mp (by simp [seat])
  refine ⟨j, on, fun line env => ?_⟩
  have status : ((w.store i line).requestP i).status = .SEAT := by
    simpa [World.store, World.setRequest] using seat
  exact ⟨World.grammatical_of_obeys live.1 running status,
    World.obeys_of_grammatical running live.1 status on⟩

end

/-- The client on 9 chooses seats of the train with descriptor 3, and `4a` would lock seat 4. -/
def Choosing (w : World) : Prop :=
  w.halt = none ∧ (w.requestP 9).status = .SEAT ∧ w.On smallConfig 9 ⟨0, by decide⟩ ∧
    ((w.store 9 "4a".toList).handleLine smallConfig .quiet 9).seatByte smallConfig
      ⟨0, by decide⟩ 3 = some '2'

instance (w : World) : Decidable (Choosing w) := by
  unfold Choosing Tables.On
  infer_instance

theorem choosing_reached : ∃ w, smallServer.Reach grammatical w ∧ Choosing w := by
  have ran : (smallServer.exec (fun w action => grammatical w action) smallStart
      [.accept 9, sends 9 "902001", sends 9 "40"]).map
        (fun w => decide (Choosing w)) = some true := by
    decide +kernel
  obtain ⟨w, reached, choosing⟩ := Machine.Reach.of_ran rfl ran
  exact ⟨w, reached, of_decide_eq_true choosing⟩

/-- `4` is handled as it should be. -/
theorem obeys_seat_four :
    ∃ w, smallServer.Reach grammatical w ∧ (w.requestP 9).status = .SEAT ∧
      ∃ j, w.On smallConfig 9 j ∧ (w.store 9 "4".toList).Obeys smallConfig .quiet 9 j := by
  obtain ⟨w, reached, running, seat, _⟩ := choosing_reached
  obtain ⟨j, on, obeys⟩ := obeys_iff_grammatical reached running seat
  refine ⟨w, reached, seat, j, on, (obeys _ _).mpr (.inr (.inr (.inl ?_)))⟩
  have number : seatNumber "4".toList ≠ none := by decide +kernel
  simpa [World.store, World.setRequest] using number

/-- `4a` is not, and locks seat 4. -/
theorem obeys_not_trailing :
    ∃ w, smallServer.Reach grammatical w ∧ (w.requestP 9).status = .SEAT ∧
      w.On smallConfig 9 ⟨0, by decide⟩ ∧
      ¬ (w.store 9 "4a".toList).Obeys smallConfig .quiet 9 ⟨0, by decide⟩ ∧
      ((w.store 9 "4a".toList).handleLine smallConfig .quiet 9).seatByte smallConfig
        ⟨0, by decide⟩ 3 = some '2' := by
  obtain ⟨w, reached, running, seat, on, locked⟩ := choosing_reached
  refine ⟨w, reached, seat, on, fun obeys => ?_, locked⟩
  have line : ((w.store 9 "4a".toList).requestP 9).buf = "4a".toList := by
    simp [World.store, World.setRequest]
  have status : ((w.store 9 "4a".toList).requestP 9).status = .SEAT := by
    simpa [World.store, World.setRequest] using seat
  have inside : 9 < smallConfig.maxfd := by decide
  have allowed : (w.store 9 "4a".toList).Grammatical 9 :=
    World.grammatical_of_obeys inside running status obeys
  have outside : ¬ ("4a".toList = "exit".toList ∨ "4a".toList = "pay".toList ∨
      seatNumber "4a".toList ≠ none ∨ atoi "4a".toList = 0) := by
    decide +kernel
  unfold Tables.Grammatical at allowed
  rw [line] at allowed
  exact outside (allowed.imp id fun rest => rest.imp id fun rest => rest.imp id And.left)

end NTUSP.Server
