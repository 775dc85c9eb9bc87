import NTUSP.Server.AnyRun
import NTUSP.Server.Tally
import Mathlib.Data.Set.Basic

/-!
# What a payment does

With its calls succeeding, `pay` moves every chosen seat of the connection to the paid ones
and stores `'1'` in its cell. Nothing else changes: the loop invariant is `payTurns`, which
says how far the record, the counter, the state and the bytes have come after some seats.
A chosen seat has its cell in the file, whatever the file was at first, because it was chosen.
-/

namespace NTUSP.Server

open NTUSP.Library CString

/-- The seats of a record with a status. -/
def Record.seats (r : Record) (status : Seat) : Set Nat :=
  {k | k < SEAT_NUM ∧ r.seatStat k = status}

namespace Tables

/-- From `t` to `u` connection `i` has paid for its chosen seats of train `j`. -/
structure Pays (cfg : Config) (t u : Tables) (i : Nat) (j : Fin TRAIN_NUM) : Prop where
  paid : (u.recordP i).seats .PAID = (t.recordP i).seats .PAID ∪ (t.recordP i).seats .CHOSEN
  chosen : (u.recordP i).seats .CHOSEN = ∅
  counter : (u.recordP i).numOfChosenSeats = 0
  shift : (u.recordP i).shiftId = (t.recordP i).shiftId ∧
    (u.recordP i).trainFd = (t.recordP i).trainFd
  request : u.requestP i =
    { t.requestP i with buf := "pay".toList, status := .BOOKED }
  sold : ∀ k ∈ (t.recordP i).seats .CHOSEN, u.seatByte cfg j k = some '1'
  bytes : (u.files (cfg.trains j)).bytes.length = (t.files (cfg.trains j)).bytes.length ∧
    ∀ p, (∀ k ∈ (t.recordP i).seats .CHOSEN, p ≠ 2 * k) →
      (u.files (cfg.trains j)).bytes[p]? = (t.files (cfg.trains j)).bytes[p]?
  elsewhere : ∀ j', j' ≠ j → u.files (cfg.trains j') = t.files (cfg.trains j')
  others : ∀ i', i' ≠ i → u.requestP i' = t.requestP i' ∧ u.recordP i' = t.recordP i'
  rest : ∀ j', (u.files (cfg.trains j')).Rest

/-- Every chosen seat has its cell in the train file, also if the file had none at first. -/
def Celled (cfg : Config) (t : Tables) : Prop :=
  ∀ i j k, k < SEAT_NUM → t.On cfg i j → (t.recordP i).seatStat k = .CHOSEN →
    2 * k < (t.files (cfg.trains j)).bytes.length

variable {cfg : Config} {t : Tables} {i n : Nat} {j : Fin TRAIN_NUM} {fd : Int}

theorem Tallied.of_settle (tallied : t.settle.Tallied) : t.Tallied where
  count := tallied.count
  booked := tallied.booked

/-- The loop keeps the shift of the connection. -/
theorem payTurns_shiftId :
    ((t.payTurns i fd n).recordP i).shiftId = (t.recordP i).shiftId := by
  apply payTurns_keeps fun t => (t.recordP i).shiftId
  simp [setStatus, setRequest, mark, setRecord, Record.setSeat]

/-- The loop changes the request in its status only. -/
theorem payTurns_request :
    (t.payTurns i fd n).requestP i =
      { t.requestP i with status := ((t.payTurns i fd n).requestP i).status } := by
  induction n with
  | zero => rfl
  | succ n ih =>
    rw [payTurns]
    unfold payTurn
    split
    · rw [setStatus, setRequest]
      simp only [Function.update_self]
      rw [show ((t.payTurns i fd n).mark i n .PAID (-1) fd '1').requestP i =
        (t.payTurns i fd n).requestP i from rfl, ih]
    · exact ih

theorem payTurns_connFd : ((t.payTurns i fd n).requestP i).connFd = (t.requestP i).connFd := by
  rw [payTurns_request]

/-- The loop over all seats pays for the chosen ones. -/
theorem payTurns_paid :
    ((t.payTurns i fd SEAT_NUM).recordP i).seats .PAID =
      (t.recordP i).seats .PAID ∪ (t.recordP i).seats .CHOSEN := by
  ext k
  simp only [Record.seats, Set.mem_ofPred_eq, Set.mem_union, payTurns_seatStat]
  constructor
  · rintro ⟨bound, paid⟩
    split at paid
    · rename_i held
      exact .inr held
    · exact .inl ⟨bound, paid⟩
  · rintro (⟨bound, paid⟩ | ⟨bound, chosen⟩)
    · exact ⟨bound, by simp [paid]⟩
    · exact ⟨bound, by simp [bound, chosen]⟩

theorem payTurns_unchosen {k : Nat} (bound : k < SEAT_NUM) :
    ((t.payTurns i fd SEAT_NUM).recordP i).seatStat k ≠ .CHOSEN := by
  rw [payTurns_seatStat]
  split
  · decide
  · rename_i other
    exact fun chosen => other ⟨bound, chosen⟩

/-- The loop over all seats, on books that are in order. -/
theorem payTurns_pays (sound : t.Sound cfg) (celled : t.Celled cfg) (tallied : t.Tallied)
    (seat : (t.requestP i).status = .SEAT) (line : (t.requestP i).buf = "pay".toList)
    (on : t.On cfg i j) (some : (t.recordP i).numOfChosenSeats ≠ 0) :
    t.Pays cfg (t.payTurns i (cfg.trains j) SEAT_NUM) i j := by
  have effects := (payTurns_effects (.inl seat) on (Nat.le_refl SEAT_NUM)).1
  have inside : ∀ k < SEAT_NUM, (t.recordP i).seatStat k = .CHOSEN →
      2 * k < (t.files (cfg.trains j)).bytes.length := fun k bound => celled i j k bound on
  have settled : (t.payTurns i (cfg.trains j) SEAT_NUM).Tallied := tallied.pay some
  have counted := settled.count i
  have none := ((t.payTurns i (cfg.trains j) SEAT_NUM).recordP i).chosen_eq_zero.mpr
    fun _ => payTurns_unchosen
  obtain ⟨length, bytes⟩ := payTurns_bytes (t := t) (i := i) inside
  have booked : ((t.payTurns i (cfg.trains j) SEAT_NUM).requestP i).status = .BOOKED := by
    have positive : (t.recordP i).chosen ≠ 0 := by
      have before := tallied.count i
      omega
    rw [Ne, Record.chosen_eq_zero] at positive
    push Not at positive
    obtain ⟨k, bound, chosen⟩ := positive
    exact payTurns_status chosen bound
  constructor
  · exact payTurns_paid
  · exact Set.eq_empty_of_forall_notMem fun k member => payTurns_unchosen member.1 member.2
  · omega
  · exact ⟨payTurns_shiftId, payTurns_same.2⟩
  · rw [payTurns_request, booked, ← line]
  · rintro k ⟨bound, chosen⟩
    exact payTurns_sold inside bound chosen
  · refine ⟨length, fun p apart => ?_⟩
    rcases bytes p with same | ⟨k, bound, place, chosen, _⟩
    · exact same
    · exact absurd place (apart k ⟨bound, chosen⟩)
  · intro j' other
    exact payTurns_elsewhere fun same => other (cfg.distinct (Int.ofNat.inj same))
  · exact fun i' other => payTurns_others other
  · exact (sound.effects effects).rest

/-- A payment for the tables with the line stored is one for the tables before. -/
theorem Pays.of_store {u : Tables} (pays : (t.store i "pay".toList).Pays cfg u i j) :
    t.Pays cfg u i j where
  paid := pays.paid
  chosen := pays.chosen
  counter := pays.counter
  shift := pays.shift
  request := by
    rw [pays.request]
    simp [store, setRequest]
  sold := pays.sold
  bytes := pays.bytes
  elsewhere := pays.elsewhere
  others i' other := by
    rw [(pays.others i' other).1, (pays.others i' other).2]
    simp [store, setRequest, other]
  rest := pays.rest

end Tables

/-! ## The cells of the chosen seats -/

/-- A stored byte has its place in the file, which got no shorter. -/
theorem TrainFile.put_length (f : TrainFile) (k : Nat) (c : Char) :
    2 * k < (f.put k c).bytes.length ∧ f.bytes.length ≤ (f.put k c).bytes.length := by
  refine ⟨?_, length_write { f with offset := 2 * k } c⟩
  by_cases inside : 2 * k < f.bytes.length
  · rw [put_bytes inside, List.length_set]
    exact inside
  · simp [put, write, inside]
    omega

namespace Tables

variable {cfg : Config} {t u : Tables} {i k : Nat} {j : Fin TRAIN_NUM}

/-- Files get longer, and no seat is chosen that was not. -/
theorem Celled.of_chosen (celled : t.Celled cfg)
    (longer : ∀ j, (t.files (cfg.trains j)).bytes.length ≤ (u.files (cfg.trains j)).bytes.length)
    (before : ∀ i j k, k < SEAT_NUM → u.On cfg i j → (u.recordP i).seatStat k = .CHOSEN →
      t.On cfg i j ∧ (t.recordP i).seatStat k = .CHOSEN) : u.Celled cfg := by
  intro i j k bound on chosen
  obtain ⟨was, held⟩ := before i j k bound on chosen
  exact Nat.lt_of_lt_of_le (celled i j k bound was held) (longer j)

/-- A new record without a chosen seat. -/
theorem Celled.setRecord {r : Record} (celled : t.Celled cfg)
    (none : ∀ k, r.seatStat k ≠ .CHOSEN) : (t.setRecord i r).Celled cfg := by
  apply celled.of_chosen (u := t.setRecord i r) fun _ => Nat.le_refl _
  intro i' j k _ on chosen
  have other : i' ≠ i := by
    rintro rfl
    exact none k (by simpa [Tables.setRecord] using chosen)
  simpa [Tables.setRecord, On, other] using And.intro on chosen

/-- A marked seat gets its cell. -/
theorem Celled.mark (celled : t.Celled cfg) (on : t.On cfg i j) (seat : Seat) (change : Int)
    (c : Char) : (t.mark i k seat change (cfg.trains j) c).Celled cfg := by
  obtain ⟨here, longer⟩ := (t.files (cfg.trains j)).put_length k c
  have length : ∀ j', (t.files (cfg.trains j')).bytes.length ≤
      ((t.mark i k seat change (cfg.trains j) c).files (cfg.trains j')).bytes.length := by
    intro j'
    by_cases train : j' = j
    · subst train
      simpa [Tables.mark] using longer
    · simp [Tables.mark, trains_ne train]
  intro i' j' k' bound on' chosen
  by_cases mine : i' = i ∧ k' = k
  · obtain ⟨rfl, rfl⟩ := mine
    have same : (t.recordP i').trainFd = cfg.trains j' := by
      simpa [On, Tables.mark, Tables.setRecord, Record.setSeat] using on'
    have train : j' = j := cfg.distinct (Int.ofNat.inj (same.symm.trans on))
    subst train
    simpa [Tables.mark] using here
  · refine Nat.lt_of_lt_of_le (celled i' j' k' bound ?_ ?_) (length j')
    · by_cases own : i' = i
      · subst own
        simpa [On, Tables.mark, Tables.setRecord, Record.setSeat] using on'
      · simpa [On, Tables.mark, Tables.setRecord, own] using on'
    · by_cases own : i' = i
      · subst own
        have other : k' ≠ k := fun equal => mine ⟨rfl, equal⟩
        simpa [Tables.mark, Tables.setRecord, Record.setSeat, other] using chosen
      · simpa [Tables.mark, Tables.setRecord, own] using chosen

/-- The payment leaves no chosen seat of its connection. -/
theorem Celled.pay (celled : t.Celled cfg) (on : t.On cfg i j) :
    (t.payTurns i (cfg.trains j) SEAT_NUM).Celled cfg := by
  apply celled.of_chosen
  · intro j'
    by_cases train : j' = j
    · subst train
      exact Nat.le_of_eq (payTurns_bytes fun k bound => celled i j' k bound on).1.symm
    · rw [payTurns_elsewhere (trains_ne train)]
  · intro i' j' k bound on' chosen
    have other : i' ≠ i := by
      rintro rfl
      exact payTurns_unchosen bound chosen
    rw [(payTurns_others other).2] at chosen
    unfold On at on'
    rw [(payTurns_others other).2] at on'
    exact ⟨on', chosen⟩

end Tables

section

variable {cfg : Config} {w : World} {i : Nat} {events : List SeatEvent} {u : Tables}

theorem Deed.celled (deed : Deed cfg w i events u) (celled : w.settle.Celled cfg)
    (sound : w.settle.Sound cfg) : u.Celled cfg := by
  cases deed with
  | nothing => exact celled
  | closed => exact celled.setRecord (i := i) (r := initRecord) fun _ => by simp [initRecord]
  | again booked => exact celled
  | bind shift =>
    have fresh : w.recordP i = initRecord := sound.fresh i (by simp [shift])
    exact celled.setRecord (i := i) fun k => by simp [fresh, initRecord]
  | choose line index bound record other available => exact celled.mark record _ _ _
  | cancel line index bound record chosen => exact celled.mark record _ _ _
  | pay seat line record some => exact celled.pay record

theorem Turn.celled {action : Action} (turn : Turn cfg w action events u)
    (celled : w.settle.Celled cfg) (sound : w.settle.Sound cfg) : u.Celled cfg := by
  cases turn with
  | accept free => exact celled
  | close live => exact celled.setRecord (r := initRecord) fun _ => by simp [initRecord]
  | line live received deed => exact deed.celled celled (sound.store _ _)

end

variable {cfg : Config} {heap : Nat → List Char} {disk : Fin TRAIN_NUM → List Char} {i : Nat}

/-- A chosen seat has its cell, in every run whose seat lines are in range. -/
theorem celled_reached {w : World} (reached : (machine cfg heap disk).Reach inRange w) :
    w.settle.Celled cfg := by
  apply books_invariant (Tables.Celled cfg) _ _ reached
  · intro i j k _ _ chosen
    simp [World.initServer, initRecord] at chosen
  · intro w action events u sound celled turn
    exact turn.celled celled sound

/-! ## The request -/

namespace World

variable {env : Env} {w : World}

theorem handleLine_pay (seat : (w.requestP i).status = .SEAT)
    (line : (w.requestP i).buf = "pay".toList) : w.handleLine cfg env i = w.pay cfg i := by
  have other : (w.requestP i).buf ≠ "exit".toList := by
    intro exits
    exact absurd (line.symm.trans exits) (by decide)
  unfold handleLine
  rw [if_neg other, seat]
  exact if_pos ⟨rfl, line⟩

/-- On a train file at rest, `pay` is the loop. -/
theorem pay_tables (running : w.halt = none) {j : Fin TRAIN_NUM}
    (record : (w.recordP i).trainFd = cfg.trains j) (rest : (w.files (cfg.trains j)).Rest)
    (some : (w.recordP i).numOfChosenSeats ≠ 0) :
    (w.pay cfg i).toTables = w.payTurns i (cfg.trains j) SEAT_NUM ∧ (w.pay cfg i).halt = none := by
  unfold pay
  dsimp only
  rw [if_neg some, record, rewind_ok rest]
  obtain ⟨tables, going, _⟩ := payLoop_tables (w := w.log (.seek (cfg.trains j) 0)) running
    record SEAT_NUM
  generalize (List.range SEAT_NUM).foldl (payStep cfg i (cfg.trains j))
    (w.log (.seek (cfg.trains j) 0)) = paid at tables going ⊢
  rw [going]
  exact ⟨tables, going⟩

end World

/-- In every state of a run whose calls succeed and whose seat lines are in range, a `pay` of a
connection in `SEAT` with a chosen seat goes through: it pays for exactly the chosen seats, in
the record and in the train file, and touches nothing else. -/
theorem pay_of_seatsInRange {w : World}
    (reached : (machine cfg heap disk).Reach seatsInRange w) (running : w.halt = none)
    (seat : (w.requestP i).status = .SEAT) (holds : ((w.recordP i).seats .CHOSEN).Nonempty)
    {chunk : List Char} (whole : chunk.length ≤ MAX_MSG_LEN)
    (line : handleRead chunk = .line "pay".toList) (env : Env) :
    ∃ t j, w.step cfg (.recv i chunk env) = some t ∧ t.halt = none ∧ w.On cfg i j ∧
      w.toTables.Pays cfg t.toTables i j := by
  have sound := sound_reached reached
  have inRange : (machine cfg heap disk).Reach inRange w := reached.mono fun _ _ both => both.2
  have celled : w.Celled cfg := celled_reached inRange
  have tallied : w.Tallied := Tables.Tallied.of_settle (tallied_reached inRange)
  obtain ⟨j, on⟩ := sound.bound i (.inl seat)
  have live := sound.live_of_seat (.inl seat)
  have stored : ((w.store i "pay".toList).requestP i).status = .SEAT ∧
      ((w.store i "pay".toList).requestP i).buf = "pay".toList := by
    simp [World.store, World.setRequest, seat]
  have positive : ((w.store i "pay".toList).recordP i).numOfChosenSeats ≠ 0 := by
    obtain ⟨k, bound, chosen⟩ := holds
    have counted : (w.recordP i).numOfChosenSeats = (w.recordP i).chosen := tallied.count i
    have some : (w.recordP i).chosen ≠ 0 := fun none =>
      (w.recordP i).chosen_eq_zero.mp none k bound chosen
    change (w.recordP i).numOfChosenSeats ≠ 0
    omega
  obtain ⟨tables, going⟩ := World.pay_tables (w := w.store i "pay".toList) running on
    (sound.rest j) positive
  refine ⟨(w.store i "pay".toList).pay cfg i, j, ?_, going, on, ?_⟩
  · unfold World.step
    rw [running, if_neg (by simp)]
    dsimp only
    rw [if_pos ⟨live, whole⟩, line]
    dsimp only
    rw [World.handleLine_pay stored.1 stored.2]
  · rw [tables]
    apply Tables.Pays.of_store
    exact Tables.payTurns_pays (sound.store i _) celled (tallied.store i _)
      stored.1 stored.2 on positive

/-- A client chooses seats 4 and 7 and pays for both. -/
theorem pay_two_seats :
    ∃ w t j, smallServer.Reach seatsInRange w ∧
      w.step smallConfig (sends 9 "pay") = some t ∧ w.Pays smallConfig t.toTables 9 j := by
  have ran : (smallServer.exec (fun w action => seatsInRange w action) smallStart
      [.accept 9, sends 9 "902001", sends 9 "4", sends 9 "7"]).map
        (fun w => (w.halt, (w.requestP 9).status, (w.recordP 9).seatStat 3)) =
      some (none, .SEAT, .CHOSEN) := by
    decide +kernel
  obtain ⟨w, reached, known⟩ := Machine.Reach.of_ran rfl ran
  obtain ⟨running, rest⟩ := Prod.mk.inj known
  obtain ⟨seat, chosen⟩ := Prod.mk.inj rest
  have line : handleRead "pay\n".toList = .line "pay".toList := rfl
  obtain ⟨t, j, transition, _, _, pays⟩ := pay_of_seatsInRange reached running
    seat ⟨3, by decide, chosen⟩ (by decide) line .quiet
  exact ⟨w, t, j, reached, transition, pays⟩

end NTUSP.Server
