import NTUSP.Server.Books

/-!
# The life of a seat's cell

A step changes a train file only at the cells of seats: from `'0'` to `'2'` when a client
takes the seat, and from there back to `'0'` or on to `'1'` by the connection that holds it.
Nothing leads away from `'1'`. Calls may fail, since a failed call stores nothing.
-/

namespace NTUSP.Server

open NTUSP.Library CString

/-- Why the cell of seat `k` of train `j` changes in a step that leads to `records`. -/
inductive CellChange (cfg : Config) (w : World) (action : Action) (records : Nat → Record)
    (j : Fin TRAIN_NUM) (k : Nat) : Char → Char → Prop where
  | choose {i : Nat} {u : Tables} (received : w.received action = some (u, i))
      (line : u.SeatLine i) (index : atoi (u.requestP i).buf - 1 = k) (on : w.On cfg i j)
      (before : (w.recordP i).seatStat k = .UNKNOWN) (after : (records i).seatStat k = .CHOSEN) :
      CellChange cfg w action records j k '0' '2'
  | cancel {i : Nat} {u : Tables} (received : w.received action = some (u, i))
      (line : u.SeatLine i) (index : atoi (u.requestP i).buf - 1 = k) (on : w.On cfg i j)
      (before : (w.recordP i).seatStat k = .CHOSEN) (after : (records i).seatStat k = .UNKNOWN) :
      CellChange cfg w action records j k '2' '0'
  | pay {i : Nat} {u : Tables} (received : w.received action = some (u, i))
      (seat : (u.requestP i).status = .SEAT) (line : (u.requestP i).buf = "pay".toList)
      (on : w.On cfg i j) (before : (w.recordP i).seatStat k = .CHOSEN)
      (after : (records i).seatStat k = .PAID) : CellChange cfg w action records j k '2' '1'

theorem CellChange.from_sold {cfg : Config} {w : World} {action : Action}
    {records : Nat → Record} {j : Fin TRAIN_NUM} {k : Nat} {old new : Char}
    (change : CellChange cfg w action records j k old new) : old ≠ '1' := by
  cases change <;> decide

/-- The step from `w` to `t` changes the train files at the cells of seats only. -/
structure LifeCycle (cfg : Config) (w : World) (action : Action) (t : Tables) : Prop where
  length : ∀ j, (t.files (cfg.trains j)).bytes.length = (w.files (cfg.trains j)).bytes.length
  cells : ∀ j p, (t.files (cfg.trains j)).bytes[p]? ≠ (w.files (cfg.trains j)).bytes[p]? →
    ∃ k old new, k < SEAT_NUM ∧ p = 2 * k ∧ w.seatByte cfg j k = some old ∧
      t.seatByte cfg j k = some new ∧ CellChange cfg w action t.recordP j k old new

namespace LifeCycle

variable {cfg : Config} {w : World} {t : Tables} {action : Action}

/-- A step that leaves the bytes of the train files alone. -/
theorem of_same (same : ∀ fd, (t.files fd).bytes = (w.files fd).bytes) :
    LifeCycle cfg w action t where
  length j := by rw [same]
  cells j p changed := absurd (by rw [same]) changed

/-- A step that changes bytes of train `j` only, at seats. -/
theorem of_train {j : Fin TRAIN_NUM}
    (other : ∀ j', j' ≠ j → t.files (cfg.trains j') = (w.files (cfg.trains j')).settle)
    (length : (t.files (cfg.trains j)).bytes.length = (w.files (cfg.trains j)).bytes.length)
    (cells : ∀ p, (t.files (cfg.trains j)).bytes[p]? = (w.files (cfg.trains j)).bytes[p]? ∨
      ∃ k old new, k < SEAT_NUM ∧ p = 2 * k ∧ w.seatByte cfg j k = some old ∧
        t.seatByte cfg j k = some new ∧ CellChange cfg w action t.recordP j k old new) :
    LifeCycle cfg w action t where
  length j' := by
    by_cases same : j' = j
    · rw [same, length]
    · rw [other j' same, TrainFile.settle_bytes]
  cells j' p changed := by
    by_cases same : j' = j
    · subst same
      exact (cells p).resolve_left changed
    · rw [other j' same, TrainFile.settle_bytes] at changed
      exact absurd rfl changed

/-- A sold seat stays sold. -/
theorem sold (life : LifeCycle cfg w action t) {j : Fin TRAIN_NUM} {k : Nat}
    (before : w.seatByte cfg j k = some '1') : t.seatByte cfg j k = some '1' := by
  by_contra after
  have changed : (t.files (cfg.trains j)).bytes[2 * k]? ≠ (w.files (cfg.trains j)).bytes[2 * k]? := by
    intro same
    exact after (same.trans before)
  obtain ⟨k', old, new, _, place, was, _, change⟩ := life.cells j _ changed
  have same : k' = k := by omega
  rw [same, before] at was
  exact change.from_sold (Option.some.inj was).symm

end LifeCycle

section

variable {cfg : Config} {w : World} {action : Action} {i k : Nat} {j : Fin TRAIN_NUM}

theorem trains_ne {j' : Fin TRAIN_NUM} (other : j' ≠ j) :
    (cfg.trains j' : Int) ≠ cfg.trains j :=
  fun same => other (cfg.distinct (Int.ofNat.inj same))

/-- A mark of a seat changes its cell. -/
theorem life_mark {u : Tables} {seat : Seat} {change : Int} {old new : Char}
    (files : u.files = w.settle.files) (bound : k < SEAT_NUM)
    (was : w.seatByte cfg j k = some old)
    (reason : CellChange cfg w action (u.mark i k seat change (cfg.trains j) new).recordP j k
      old new) : LifeCycle cfg w action (u.mark i k seat change (cfg.trains j) new) := by
  have inside : 2 * k < (u.files (cfg.trains j)).bytes.length := by
    rw [files]
    exact (List.getElem?_eq_some_iff.mp was).1
  have stored : ((u.mark i k seat change (cfg.trains j) new).files (cfg.trains j)).bytes =
      (w.files (cfg.trains j)).bytes.set (2 * k) new := by
    have same : (u.files (cfg.trains j)).bytes = (w.files (cfg.trains j)).bytes := by
      rw [files]
      rfl
    rw [← same, ← TrainFile.put_bytes inside]
    simp [Tables.mark]
  apply LifeCycle.of_train (j := j)
  · intro j' other
    simp [Tables.mark, trains_ne other, files]
  · rw [stored, List.length_set]
  · intro p
    rw [stored]
    by_cases place : p = 2 * k
    · subst place
      have length := (List.getElem?_eq_some_iff.mp was).1
      refine .inr ⟨k, old, new, bound, rfl, was, ?_, reason⟩
      unfold Tables.seatByte TrainFile.cell
      rw [stored, List.getElem?_set_self length]
    · exact .inl (List.getElem?_set_ne (Ne.symm place))

/-- The payment of the chosen seats changes their cells. -/
theorem life_pay {u : Tables} (kept : w.Kept cfg) (files : u.files = w.files)
    (records : u.recordP = w.recordP) (received : w.received action = some (u, i))
    (seat : (u.requestP i).status = .SEAT) (line : (u.requestP i).buf = "pay".toList)
    (on : w.On cfg i j) :
    LifeCycle cfg w action (u.settle.payTurns i (cfg.trains j) SEAT_NUM) := by
  have same : (u.settle.files (cfg.trains j)).bytes = (w.files (cfg.trains j)).bytes := by
    rw [Tables.settle_files, files, TrainFile.settle_bytes]
  have inside : ∀ k < SEAT_NUM, (u.settle.recordP i).seatStat k = .CHOSEN →
      2 * k < (u.settle.files (cfg.trains j)).bytes.length := by
    intro k bound _
    rw [same]
    exact kept.seated.inside bound
  obtain ⟨length, bytes⟩ := Tables.payTurns_bytes (i := i) inside
  apply LifeCycle.of_train (j := j)
  · intro j' other
    rw [Tables.payTurns_elsewhere (trains_ne other), Tables.settle_files, files]
  · exact length.trans (congrArg List.length same)
  · intro p
    rcases bytes p with unchanged | ⟨k, bound, place, chosen, one⟩
    · exact .inl (unchanged.trans (by rw [same]))
    · have held : (w.recordP i).seatStat k = .CHOSEN := by
        rw [← records]
        exact chosen
      have locked := kept.held bound on held (by decide)
      refine .inr ⟨k, '2', '1', bound, place, locked, ?_, .pay received seat line on held ?_⟩
      · subst place
        exact one
      · rw [Tables.payTurns_seatStat, if_pos ⟨bound, chosen⟩]

/-- A step changes cells of seats only, along their life. -/
theorem Turn.life {events : List SeatEvent} {u : Tables} (turn : Turn cfg w action events u)
    (kept : w.Kept cfg) : LifeCycle cfg w action u := by
  cases turn with
  | accept free => exact .of_same fun _ => rfl
  | close live => exact .of_same fun _ => rfl
  | line live received deed =>
    rename_i i text
    cases deed with
    | nothing => exact .of_same fun _ => rfl
    | closed => exact .of_same fun _ => rfl
    | again booked => exact .of_same fun _ => rfl
    | bind shift => exact .of_same fun _ => rfl
    | choose line index bound record other available =>
      rename_i k j
      have zero := kept.seated.zero_of_available bound available
      have free := kept.seated.unknown_of_zero bound zero i record
      exact life_mark rfl bound zero (.choose received line index record free
        (by rw [Tables.mark_seatStat, if_pos ⟨rfl, rfl⟩]))
    | cancel line index bound record chosen =>
      rename_i k j
      exact life_mark rfl bound (kept.held bound record chosen (by decide))
        (.cancel received line index record chosen
          (by rw [Tables.mark_seatStat, if_pos ⟨rfl, rfl⟩]))
    | pay seat line record some =>
      exact life_pay kept rfl rfl received seat line record

end

variable {cfg : Config} {heap : Nat → List Char} {disk : Fin TRAIN_NUM → List Char}

/-- In a run from train files without a locked seat, every step changes train files at the
cells of seats only, along their life, and a sold seat stays sold in every later state. -/
theorem life_of_inRange (unlocked : Unlocked disk) {w : World}
    (reached : (machine cfg heap disk).Reach inRange w) :
    (∀ action t, inRange w action → w.step cfg action = some t →
        LifeCycle cfg w action t.toTables) ∧
      ∀ later, ((machine cfg heap disk).startAt w).Reach inRange later →
        ∀ j k, w.seatByte cfg j k = some '1' → later.seatByte cfg j k = some '1' := by
  have kept := kept_reached unlocked reached
  have step : ∀ {w t : World} {action}, w.Kept cfg → inRange w action →
      w.step cfg action = some t → LifeCycle cfg w action t.toTables := by
    intro w t action kept allowed transition
    obtain ⟨length, cells⟩ := (World.step_turn kept.sound allowed transition).life kept
    exact ⟨length, cells⟩
  refine ⟨fun action t => step kept, fun later continued j k sold => ?_⟩
  suffices both : later.Kept cfg ∧ later.seatByte cfg j k = some '1' from both.2
  apply continued.invariant (fun later => later.Kept cfg ∧ later.seatByte cfg j k = some '1')
  · rintro _ rfl
    exact ⟨kept, sold⟩
  · rintro w action t _ ⟨kept, sold⟩ allowed transition
    exact ⟨kept_step kept allowed transition, (step kept allowed transition).sold sold⟩

/-- A client pays for seat 4, and the seat is its for the rest of the run. -/
theorem life_paid_seat :
    ∃ w, smallServer.Reach inRange w ∧ w.seatByte smallConfig ⟨0, by decide⟩ 3 = some '1' ∧
      ∀ later, (smallServer.startAt w).Reach inRange later →
        later.seatByte smallConfig ⟨0, by decide⟩ 3 = some '1' := by
  have ran : (smallServer.exec (fun w action => inRange w action) smallStart
      [.accept 9, .accept 10, sends 10 "902001", sends 9 "902001", sends 9 "4", sends 10 "4",
        sends 9 "pay"]).map (fun w => w.seatByte smallConfig ⟨0, by decide⟩ 3) =
      some (some '1') := by
    decide +kernel
  obtain ⟨w, reached, sold⟩ := Machine.Reach.of_ran rfl ran
  have permanent := (life_of_inRange freeTrain_unlocked reached).2
  exact ⟨w, reached, sold, fun later continued => permanent later continued _ _ sold⟩

end NTUSP.Server
