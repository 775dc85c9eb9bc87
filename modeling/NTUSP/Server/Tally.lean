import NTUSP.Server.LifeCycle
import NTUSP.Library.Counting

/-!
# The records of the connections

`num_of_chosen_seats` counts the chosen seats. A connection in `BOOKED` has paid for a seat
and holds none that is chosen, and a slot without a connection holds the initial record.
So `pay` finds no seat to pay exactly when none is chosen.
-/

namespace NTUSP.Server

open NTUSP.Library CString

/-- The number of chosen seats. -/
def Record.chosen (r : Record) : Nat :=
  (List.range SEAT_NUM).countP fun k => r.seatStat k = .CHOSEN

/-- One seat changes the count by itself. -/
theorem Record.chosen_setSeat (r : Record) {k : Nat} (bound : k < SEAT_NUM) (seat : Seat) :
    (r.setSeat k seat).chosen + (decide (r.seatStat k = .CHOSEN)).toNat =
      r.chosen + (decide (seat = .CHOSEN)).toNat := by
  have own : (decide ((r.setSeat k seat).seatStat k = .CHOSEN)) = decide (seat = .CHOSEN) := by
    simp [setSeat]
  rw [← own]
  apply Counting.countP_change k List.nodup_range (List.mem_range.mpr bound)
  intro other _ different
  simp [setSeat, different]

theorem Record.chosen_eq_zero (r : Record) :
    r.chosen = 0 ↔ ∀ k, k < SEAT_NUM → r.seatStat k ≠ .CHOSEN := by
  simp [chosen, List.countP_eq_zero]

namespace Tables

/-- The counters count, and a connection in `BOOKED` has paid for all its seats. -/
structure Tallied (t : Tables) : Prop where
  count : ∀ i, (t.recordP i).numOfChosenSeats = (t.recordP i).chosen
  booked : ∀ i, (t.requestP i).status = .BOOKED →
    (∀ k, k < SEAT_NUM → (t.recordP i).seatStat k ≠ .CHOSEN) ∧
      ∃ k, k < SEAT_NUM ∧ (t.recordP i).seatStat k = .PAID

/-- What every slot of the tables holds. -/
structure RecordInvariant (cfg : Config) (t : Tables) : Prop where
  count : ∀ i, (t.recordP i).numOfChosenSeats = (t.recordP i).chosen
  shift : ∀ i, t.Live cfg i → (t.requestP i).status = .SHIFT →
    (∀ k, (t.recordP i).seatStat k = .UNKNOWN) ∧ (t.recordP i).numOfChosenSeats = 0 ∧
      (t.recordP i).trainFd = -1
  booked : ∀ i, t.Live cfg i → (t.requestP i).status = .BOOKED →
    (∀ k, k < SEAT_NUM → (t.recordP i).seatStat k ≠ .CHOSEN) ∧
      ∃ k, k < SEAT_NUM ∧ (t.recordP i).seatStat k = .PAID
  free : ∀ i, ¬ t.Live cfg i → t.recordP i = initRecord

theorem Tallied.recordInvariant {cfg : Config} {t : Tables} (tallied : t.settle.Tallied)
    (kept : t.Kept cfg) : t.RecordInvariant cfg where
  count := tallied.count
  shift i _ status := by
    rw [kept.fresh status]
    exact ⟨fun _ => rfl, rfl, rfl⟩
  booked i _ := tallied.booked i
  free i gone := by
    by_contra used
    exact gone (kept.sound.live_of_seat (kept.sound.status_of_record used))

variable {t u : Tables} {i k : Nat} {seat : Seat} {change fd : Int} {c : Char}

/-- A seat and the counter change together. -/
theorem count_mark (count : ∀ i, (t.recordP i).numOfChosenSeats = (t.recordP i).chosen)
    (bound : k < SEAT_NUM)
    (moved : change + (decide ((t.recordP i).seatStat k = .CHOSEN)).toNat =
      (decide (seat = .CHOSEN)).toNat) (i' : Nat) :
    ((t.mark i k seat change fd c).recordP i').numOfChosenSeats =
      ((t.mark i k seat change fd c).recordP i').chosen := by
  by_cases same : i' = i
  · subst same
    have counted := (t.recordP i').chosen_setSeat bound seat
    have before := count i'
    have after : ((t.mark i' k seat change fd c).recordP i').chosen =
        ((t.recordP i').setSeat k seat).chosen := by
      simp [mark, setRecord, Record.chosen]
    have number : ((t.mark i' k seat change fd c).recordP i').numOfChosenSeats =
        (t.recordP i').numOfChosenSeats + change := by
      simp [mark, setRecord]
    omega
  · simpa [mark, setRecord, same] using count i'

theorem count_payTurns (count : ∀ i, (t.recordP i).numOfChosenSeats = (t.recordP i).chosen)
    {n : Nat} (bound : n ≤ SEAT_NUM) (i' : Nat) :
    ((t.payTurns i fd n).recordP i').numOfChosenSeats =
      ((t.payTurns i fd n).recordP i').chosen := by
  induction n generalizing i' with
  | zero => exact count i'
  | succ n ih =>
    rw [payTurns]
    by_cases chosen : ((t.payTurns i fd n).recordP i).seatStat n = .CHOSEN
    · rw [payTurn_chosen chosen]
      change (((t.payTurns i fd n).mark i n .PAID (-1) fd '1').recordP i').numOfChosenSeats =
        (((t.payTurns i fd n).mark i n .PAID (-1) fd '1').recordP i').chosen
      exact count_mark (ih (by omega)) (by omega) (by simp [chosen]) i'
    · rw [payTurn_other chosen]
      exact ih (by omega) i'

namespace Tallied

/-- A slot changes to one that is not in `BOOKED`, or the others stay. -/
theorem of_others (tallied : t.Tallied) (i : Nat)
    (count : ∀ i, (u.recordP i).numOfChosenSeats = (u.recordP i).chosen)
    (others : ∀ k, k ≠ i → (u.requestP k).status = (t.requestP k).status ∧
      u.recordP k = t.recordP k) (idle : (u.requestP i).status ≠ .BOOKED) : u.Tallied where
  count := count
  booked k booked := by
    have other : k ≠ i := by
      rintro rfl
      exact idle booked
    rw [(others k other).1] at booked
    rw [(others k other).2]
    exact tallied.booked k booked

/-- A slot whose record stays, and which is not in `BOOKED` afterwards. -/
theorem of_records (tallied : t.Tallied) (i : Nat) (records : u.recordP = t.recordP)
    (others : ∀ k, k ≠ i → (u.requestP k).status = (t.requestP k).status)
    (idle : (u.requestP i).status ≠ .BOOKED) : u.Tallied := by
  apply tallied.of_others i
  · rw [records]
    exact tallied.count
  · exact fun k other => ⟨others k other, by rw [records]⟩
  · exact idle

theorem store (tallied : t.Tallied) (i : Nat) (text : List Char) : (t.store i text).Tallied where
  count := tallied.count
  booked k booked := by
    apply tallied.booked k
    by_cases same : k = i
    · subst same
      simpa [Tables.store, setRequest] using booked
    · simpa [Tables.store, setRequest, same] using booked

theorem closeConn (tallied : t.Tallied) (i : Nat) : (t.closeConn i).Tallied := by
  apply tallied.of_others i
  · intro i'
    by_cases same : i' = i
    · subst same
      have none : initRecord.chosen = 0 := initRecord.chosen_eq_zero.mpr fun _ _ => by
        simp [initRecord]
      simp [Tables.closeConn, setRequest, setRecord, none]
      rfl
    · simpa [Tables.closeConn, setRequest, setRecord, same] using tallied.count i'
  · intro k other
    simp [Tables.closeConn, setRequest, setRecord, other]
  · simp [Tables.closeConn, setRequest, freeRequest]

/-- A seat of a connection in `SEAT` changes with its counter. -/
theorem mark (tallied : t.Tallied) (status : (t.requestP i).status = .SEAT) (bound : k < SEAT_NUM)
    (moved : change + (decide ((t.recordP i).seatStat k = .CHOSEN)).toNat =
      (decide (seat = .CHOSEN)).toNat) : (t.mark i k seat change fd c).Tallied := by
  apply tallied.of_others i (count_mark tallied.count bound moved)
  · intro k other
    simp [Tables.mark, setRecord, other]
  · simp [Tables.mark, setRecord, status]

/-- Paying all chosen seats, of which there is one. -/
theorem pay (tallied : t.Tallied) (some : (t.recordP i).numOfChosenSeats ≠ 0) :
    (t.payTurns i fd SEAT_NUM).Tallied where
  count := count_payTurns tallied.count (Nat.le_refl SEAT_NUM)
  booked i' booked := by
    by_cases same : i' = i
    · subst same
      constructor
      · intro k bound
        rw [payTurns_seatStat]
        split
        · simp
        · rename_i other
          exact fun chosen => other ⟨bound, chosen⟩
      · have positive : (t.recordP i').chosen ≠ 0 := by
          have counted := tallied.count i'
          omega
        rw [Ne, Record.chosen_eq_zero] at positive
        push Not at positive
        obtain ⟨k, bound, chosen⟩ := positive
        exact ⟨k, bound, by rw [payTurns_seatStat, if_pos ⟨bound, chosen⟩]⟩
    · obtain ⟨request, record⟩ : (t.payTurns i fd SEAT_NUM).requestP i' = t.requestP i' ∧
          (t.payTurns i fd SEAT_NUM).recordP i' = t.recordP i' := payTurns_others same
      rw [request] at booked
      rw [record]
      exact tallied.booked i' booked

end Tallied
end Tables

section

variable {cfg : Config} {w : World} {i : Nat} {events : List SeatEvent} {u : Tables}

theorem Deed.tallied (deed : Deed cfg w i events u) (tallied : w.settle.Tallied)
    (sound : w.settle.Sound cfg) : u.Tallied := by
  cases deed with
  | nothing => exact tallied
  | closed => exact tallied.closeConn i
  | again booked =>
    apply tallied.of_records (u := w.settle.setStatus i .SEAT) i rfl
    · intro k other
      simp [Tables.setStatus, Tables.setRequest, other]
    · simp [Tables.setStatus, Tables.setRequest]
  | bind shift =>
    have fresh : w.recordP i = initRecord := sound.fresh i (by simp [shift])
    apply tallied.of_others i
    · intro i'
      by_cases same : i' = i
      · subst same
        rw [Tables.bind_record]
        exact tallied.count i'
      · simpa [Tables.bind, Tables.setStatus, Tables.setRequest, Tables.setRecord, same]
          using tallied.count i'
    · intro k other
      simp [Tables.bind, Tables.setStatus, Tables.setRequest, Tables.setRecord, other]
    · simp
  | choose line index bound record other available =>
    exact tallied.mark line.1 bound (by simp [other])
  | cancel line index bound record chosen =>
    exact tallied.mark line.1 bound (by simp [chosen])
  | pay seat line record some => exact tallied.pay some

theorem Turn.tallied {action : Action} (turn : Turn cfg w action events u)
    (tallied : w.settle.Tallied) (sound : w.settle.Sound cfg) : u.Tallied := by
  cases turn with
  | accept free =>
    rename_i fd
    apply tallied.of_records (u := w.settle.acceptConn fd) fd rfl
    · intro k other
      simp [Tables.acceptConn, Tables.setRequest, other]
    · simp [Tables.acceptConn, Tables.setRequest]
  | close live => exact tallied.closeConn _
  | line live received deed => exact deed.tallied (tallied.store _ _) (sound.store _ _)

end

variable {cfg : Config} {heap : Nat → List Char} {disk : Fin TRAIN_NUM → List Char}

theorem tallied_reached {w : World}
    (reached : (machine cfg heap disk).Reach inRange w) : w.settle.Tallied := by
  apply books_invariant Tables.Tallied _ _ reached
  · constructor
    · intro i
      have none : initRecord.chosen = 0 :=
        initRecord.chosen_eq_zero.mpr fun _ _ => by simp [initRecord]
      change (0 : Int) = initRecord.chosen
      omega
    · intro i booked
      simp [World.initServer] at booked
  · intro w action events u sound tallied turn
    exact turn.tallied tallied sound

/-! ## The answer to `pay` -/

namespace World

variable {env : Env} {w t : World} {i : Nat} {action : Action}

/-- The step from `w` to `t` answers the client on `i` with a line and perhaps more. -/
def Answers (w t : World) (i : Nat) (text : List Char) : Prop :=
  ∃ more, t.sent = w.sent ++ ((w.requestP i).connFd, text) :: more

theorem lseek_sent (w : World) (fd offset : Int) (fails : Bool) :
    (w.lseek cfg fd offset fails).1.sent = w.sent := by
  unfold lseek
  dsimp only
  split <;> rfl

theorem setLock_sent (w : World) (fd : Int) (locked : Bool) :
    (w.setLock cfg fd locked).sent = w.sent := by
  unfold setLock
  split <;> rfl

theorem storeCell_sent (w : World) (trainFd index : Int) (c : Char) :
    (w.storeCell cfg trainFd index c).sent = w.sent := by
  have sought : (w.lseek cfg trainFd (seatOffset index) false).1.sent = w.sent :=
    lseek_sent w trainFd (seatOffset index) false
  unfold storeCell
  dsimp only
  split
  · exact sought
  · rw [lseek_sent, setLock_sent]
    exact (setLock_sent _ trainFd true).trans sought

theorem payStep_sent (w : World) (trainFd : Int) (k : Nat) :
    (payStep cfg i trainFd w k).sent = w.sent := by
  unfold payStep
  split
  · rfl
  dsimp only
  split
  · rw [storeCell_sent]
    rfl
  · rfl

theorem payLoop_sent (w : World) (trainFd : Int) (seats : List Nat) :
    (seats.foldl (payStep cfg i trainFd) w).sent = w.sent := by
  induction seats generalizing w with
  | nil => rfl
  | cons k rest ih => exact (ih _).trans (payStep_sent w trainFd k)

/-- `pay` answers that there is no seat exactly when the counter is zero. -/
theorem pay_answers (running : w.halt = none) {j : Fin TRAIN_NUM}
    (record : (w.recordP i).trainFd = cfg.trains j) :
    w.Answers (w.pay cfg i) i noSeatMsg ↔ (w.recordP i).numOfChosenSeats = 0 := by
  unfold pay
  split
  · rename_i none
    refine iff_of_true ⟨[((w.requestP i).connFd, printTrainInfo (w.recordP i)),
      ((w.requestP i).connFd, writeSeatMsg)], ?_⟩ none
    simp [send, sendInfo]
  · rename_i some
    refine iff_of_false ?_ some
    have going : (w.lseek cfg (cfg.trains j) 0 false).1.halt = none := by
      rw [lseek_halt, running]
    have on : (((w.lseek cfg (cfg.trains j) 0 false).1).recordP i).trainFd = cfg.trains j := by
      rw [(lseek_aside cfg w _ 0 false).recordP, record]
    have still := (payLoop_settle going on SEAT_NUM).2
    have quiet : ((List.range SEAT_NUM).foldl (payStep cfg i (cfg.trains j))
        (w.lseek cfg (cfg.trains j) 0 false).1).sent = w.sent :=
      (payLoop_sent _ (cfg.trains j) (List.range SEAT_NUM)).trans (lseek_sent w (cfg.trains j) 0 false)
    dsimp only
    rw [record]
    generalize (List.range SEAT_NUM).foldl (payStep cfg i (cfg.trains j))
      (w.lseek cfg (cfg.trains j) 0 false).1 = paid at still quiet ⊢
    rw [still]
    rintro ⟨more, answer⟩
    have sent : (((paid.send i bookSuccMsg).sendInfo i).send i writeSeatOrExitMsg).sent =
        w.sent ++ ((paid.requestP i).connFd, bookSuccMsg) ::
          [((paid.requestP i).connFd, printTrainInfo (paid.recordP i)),
            ((paid.requestP i).connFd, writeSeatOrExitMsg)] := by
      simp [send, sendInfo, quiet]
    have first := (List.cons.inj (List.append_cancel_left (sent.symm.trans answer))).1
    exact absurd (Prod.mk.inj first).2 (by decide +kernel)

end World

/-- In a run from train files without a locked seat, the counter of every record counts its
chosen seats, the record fits the state of its connection, and a slot without a connection
holds the initial record. So `pay` answers that there is no seat exactly when none is chosen. -/
theorem records_of_inRange (unlocked : Unlocked disk) {w : World}
    (reached : (machine cfg heap disk).Reach inRange w) :
    w.RecordInvariant cfg ∧ ∀ action t u i, w.step cfg action = some t →
      w.received action = some (u, i) → (u.requestP i).status = .SEAT →
      (u.requestP i).buf = "pay".toList →
      (w.Answers t i noSeatMsg ↔ ∀ k, k < SEAT_NUM → (w.recordP i).seatStat k ≠ .CHOSEN) := by
  have kept := kept_reached unlocked reached
  have tallied := tallied_reached reached
  refine ⟨tallied.recordInvariant kept, ?_⟩
  intro action t u i transition received seat pays
  obtain ⟨running, stepped⟩ := World.step_cases transition
  cases stepped with
  | accept free none continues =>
    rw [none] at received
    cases received
  | close live none ends =>
    rw [none] at received
    cases received
  | line live stored ends fine =>
    rename_i i' text env
    obtain ⟨rfl, rfl⟩ := Prod.mk.inj (Option.some.inj (stored.symm.trans received))
    obtain ⟨j, record⟩ := (kept.store i' text).sound.bound i' (.inl seat)
    have paid : (w.store i' text).handleLine cfg env i' = (w.store i' text).pay cfg i' := by
      have line : ((w.store i' text).requestP i').buf ≠ "exit".toList := by
        intro exits
        exact absurd (pays.symm.trans exits) (by decide)
      unfold World.handleLine
      rw [if_neg line, show ((w.store i' text).requestP i').status = .SEAT from seat]
      exact if_pos ⟨rfl, pays⟩
    have answer := World.pay_answers (w := w.store i' text) running record
    rw [← Record.chosen_eq_zero, paid]
    have counted : (w.recordP i').numOfChosenSeats = (w.recordP i').chosen := tallied.count i'
    have same : (w.store i' text).Answers ((w.store i' text).pay cfg i') i' noSeatMsg ↔
        w.Answers ((w.store i' text).pay cfg i') i' noSeatMsg := by
      simp [World.Answers, World.store, World.setRequest]
    rw [← same, answer]
    change (w.recordP i').numOfChosenSeats = 0 ↔ _
    omega

/-- A client pays for seat 4 and goes on to seat 7. -/
theorem records_second_seat :
    ∃ w, smallServer.Reach inRange w ∧ (w.recordP 9).numOfChosenSeats = 1 ∧
      w.RecordInvariant smallConfig := by
  have ran : (smallServer.exec (fun w action => inRange w action) smallStart
      [.accept 9, sends 9 "902001", sends 9 "4", sends 9 "pay", sends 9 "seat",
        sends 9 "7"]).map (fun w => (w.recordP 9).numOfChosenSeats) = some 1 := by
    decide +kernel
  obtain ⟨w, reached, one⟩ := Machine.Reach.of_ran rfl ran
  exact ⟨w, reached, one, (records_of_inRange freeTrain_unlocked reached).1⟩

end NTUSP.Server
