import NTUSP.Server.Advance

/-!
# The parts of a request, in the claims

Every part of a request leads to claims in which the process stands again. Only the part in
which a record takes a seat needs to know that nobody else claims it.
-/

namespace NTUSP.Server

open NTUSP.Library CString

section

variable {Process : Type} {cfg : Config} {p : Process}
  {claims : Claims.State Process (Process × Nat) Cell} {w t : World} {phase : Phase} {i : Nat}
  {c : Cell} {env : Env}

/-! ## The parts of a request -/

/-- A connection with a state is live. -/
theorem Ready.live (ready : Ready cfg p claims w phase) (valid : (w.requestP i).status ≠ .INVALID) :
    w.Live cfg i := (ready.stands.sound.live i).mp valid

/-- A seat that nobody has a mark on, as far as this process knows. -/
theorem Ready.own_unknown (ready : Ready cfg p claims w phase) (quiet : claims.pending p = none)
    (free : claims.cell c = .free) (on : w.On cfg i c.1) :
    (w.recordP i).seatStat c.2 = .UNKNOWN := by
  by_contra held
  have mark := ready.stands.on i c on
  have marked : claims.mark (p, i) c ≠ .free := by
    intro unmarked
    exact held (Seat.mark_eq_free.mp (mark.symm.trans unmarked))
  have cell := ready.sole.cell_of_mark (o := (p, i)) quiet marked
  rw [free] at cell
  exact marked cell.symm

/-- A chosen seat is claimed. -/
theorem Ready.claimed (ready : Ready cfg p claims w phase) (on : w.On cfg i c.1)
    (chosen : (w.recordP i).seatStat c.2 = .CHOSEN) : claims.mark (p, i) c = .claimed := by
  have mark := ready.stands.on i c on
  rwa [chosen] at mark

/-- A connection whose record changes stays on its train. -/
theorem on_of_records {j : Fin TRAIN_NUM} {r : Record} (on : w.On cfg i j)
    (records : t.recordP = Function.update w.recordP i r)
    (train : r.trainFd = (w.recordP i).trainFd) : t.On cfg i j := by
  unfold Tables.On
  rw [records, Function.update_self, train]
  exact on

variable [DecidableEq Process]

theorem advance_occupied {call : Nat} {fd : Int}
    (ready : Ready cfg p claims w (.occupied i env call fd)) :
    ∃ claims', Advance cfg p claims (w.proceed cfg (.occupied i env call fd)) claims' := by
  obtain ⟨quiet, shift, j, rfl⟩ := ready.stands.fits
  have running := ready.stands.running (by simp)
  have same := World.occupied_settle cfg env w call (cfg.trains j)
  have going : (w.occupied cfg env call (cfg.trains j)).1.halt = none :=
    (World.occupied_halt call).trans running
  unfold World.proceed
  dsimp only
  generalize w.occupied cfg env call (cfg.trains j) = called at same going ⊢
  obtain ⟨t, full⟩ := called
  dsimp only at same going ⊢
  have requests : t.requestP = w.requestP := Tables.requestP_of_settle same
  have again : ∀ call, Advance cfg p claims (t, .occupied i env call (cfg.trains j)) claims := by
    intro call
    refine ready.read same (fun _ => going) ⟨quiet, ?_, j, rfl⟩
    rw [requests]
    exact shift
  have stop : ∀ t' : World, t'.settle = t.settle → Advance cfg p claims (t', .idle) claims :=
    fun t' answered => ready.answer quiet (answered.trans same)
  match call with
  | 0 =>
    simp only [World.afterOccupied]
    split
    · exact ⟨_, stop _ rfl⟩
    · exact ⟨_, again 1⟩
  | 1 =>
    simp only [World.afterOccupied]
    split
    · have bound := World.settle_bound t i (atoi (t.requestP i).buf) (cfg.trains j)
      rw [same] at bound
      exact ⟨_, ready.bind shift quiet bound⟩
    · exact ⟨_, again 2⟩
  | n + 2 =>
    simp only [World.afterOccupied]
    split
    · have live : w.Live cfg i := ready.live (by simp [shift])
      exact ⟨_, ready.closeConn live quiet (Tables.closeConn_of_settle same i)⟩
    · exact ⟨_, stop _ rfl⟩

theorem advance_checkCurr {call : Nat} {bookNum trainFd : Int}
    (ready : Ready cfg p claims w (.checkCurr i env call bookNum trainFd)) :
    ∃ claims', Advance cfg p claims (w.proceed cfg (.checkCurr i env call bookNum trainFd))
      claims' := by
  obtain ⟨quiet, c, serves⟩ := ready.stands.fits
  have running := ready.stands.running (by simp)
  obtain ⟨t, code, called, going, same⟩ :=
    World.checkCurr_returns env running serves.on call bookNum
  have requests : t.requestP = w.requestP := Tables.requestP_of_settle same
  have records : t.recordP = w.recordP := Tables.recordP_of_settle same
  have serves' := serves.of_slots requests records
  have again : ∀ call, Advance cfg p claims (t, .checkCurr i env call bookNum trainFd) claims :=
    fun call => ready.read same (fun _ => going) ⟨quiet, c, serves'⟩
  have stop : ∀ t' : World, t'.settle = t.settle → Advance cfg p claims (t', .idle) claims :=
    fun t' answered => ready.answer quiet (answered.trans same)
  simp only [World.proceed, called]
  obtain _ | _ | call := call
  · simp only [World.afterCheck]
    split
    · rename_i available
      have found : (w.checkCurr cfg env 0 i bookNum).2 = some 0 := by rw [called, available]
      have zero := World.cell_of_checkCurr serves.on serves.index found _ (ready.stored c)
      have free : claims.cell c = .free := markByte_injective zero
      refine ⟨_, ready.read same (fun _ => going) ⟨quiet, c, serves', fun i' on => ?_⟩⟩
      unfold Tables.On at on
      rw [records] at on ⊢
      exact ready.own_unknown quiet free on
    · exact ⟨_, again 1⟩
  · simp only [World.afterCheck]
    split
    · exact ⟨_, stop _ rfl⟩
    · exact ⟨_, again 2⟩
  · simp only [World.afterCheck]
    split
    · exact ⟨_, stop _ rfl⟩
    · have live : w.Live cfg i := ready.live (by simp [serves.status])
      exact ⟨_, ready.closeConn live quiet (Tables.closeConn_of_settle same i)⟩

/-- A seat and the counter of a record. -/
def noted (w : World) (i k : Nat) (seat : Seat) (change : Int) : Record :=
  { (w.recordP i).setSeat k seat with
    numOfChosenSeats := (w.recordP i).numOfChosenSeats + change }

/-- The record of a connection notes a seat. -/
theorem note_records (access : Access) (k : Nat) (seat : Seat) (change : Int) :
    (((w.log access).setRecord i ((w.recordP i).setSeat k seat)).addChosen i change).recordP =
      Function.update w.recordP i (noted w i k seat change) := by
  simp [World.addChosen, World.setRecord, World.log, noted, Record.setSeat]

/-- A slot whose record has noted a seat is in order. -/
theorem note_sound (sound : w.settle.Sound cfg) {k : Nat} {seat : Seat} {change : Int}
    (status : (w.requestP i).status = .SEAT ∨ (w.requestP i).status = .BOOKED)
    (requests : t.requestP = w.requestP)
    (records : t.recordP = Function.update w.recordP i (noted w i k seat change)) :
    t.settle.Sound cfg := by
  have train : (noted w i k seat change).trainFd = (w.settle.recordP i).trainFd := rfl
  exact (sound.setRecord status train).of_slots requests records fun j => t.settle_rest _

/-- A record takes a seat that nobody claims. -/
theorem advance_take {bookNum trainFd : Int}
    (ready : Ready cfg p claims w (.take i bookNum trainFd))
    (unclaimed : ∀ c, Serves cfg w i bookNum trainFd c → (∀ o, claims.mark o c = .free) ∧
      (∀ q m, claims.pending q ≠ some (c, m)) ∧ claims.cell c ≠ .settled) :
    ∃ claims', Advance cfg p claims (w.proceed cfg (.take i bookNum trainFd)) claims' := by
  obtain ⟨quiet, c, serves, _⟩ := ready.stands.fits
  have running := ready.stands.running (by simp)
  have live := ready.live (i := i) (by simp [serves.status])
  obtain ⟨unmarked, nobody, unsettled⟩ := unclaimed c serves
  have sole : Claims.Sole Prod.fst (claims.put p (p, i) c Seat.CHOSEN.mark) :=
    ready.sole.claim (o := (p, i)) quiet unmarked nobody unsettled
  simp only [World.proceed, serves.index, World.setSeatStat_ok live.1 c.2.isLt]
  rw [if_neg (by simp [World.setRecord, World.log, running])]
  have records := note_records (w := w) (i := i) (.seat (c.2 : Nat)) c.2 .CHOSEN 1
  refine ⟨_, ready.put sole serves.on records rfl rfl ?_ running rfl ?_⟩
  · exact note_sound ready.stands.sound (.inl serves.status) rfl records
  · exact ⟨c, ⟨serves.status, on_of_records serves.on records rfl, serves.train, serves.index⟩, rfl⟩

variable (cfg w) in
/-- The state of a connection survives the write of a cell. -/
theorem storeCell_serves (trainFd index : Int) (ch : Char) :
    (w.storeCell cfg trainFd index ch).requestP = w.requestP ∧
      (w.storeCell cfg trainFd index ch).recordP = w.recordP := by
  have aside := World.storeCell_aside cfg w trainFd index ch
  exact ⟨aside.requestP, aside.recordP⟩

theorem storeCell_halt (j : Fin TRAIN_NUM) (k : Nat) (ch : Char) :
    (w.storeCell cfg (cfg.trains j) (k : Nat) ch).halt = w.halt := by
  rw [World.storeCell_ok ch rfl]
  rfl

theorem advance_takeStore {bookNum trainFd : Int}
    (ready : Ready cfg p claims w (.takeStore i bookNum trainFd)) :
    ∃ claims', Advance cfg p claims (w.proceed cfg (.takeStore i bookNum trainFd)) claims' := by
  obtain ⟨c, serves, writes⟩ := ready.stands.fits
  have running := ready.stands.running (by simp)
  simp only [World.proceed, serves.index, serves.train]
  rw [if_neg (by simp [storeCell_halt, running])]
  exact ⟨_, ready.flush writes rfl (fun busy => absurd rfl busy) rfl⟩

theorem advance_cancelStore {bookNum trainFd : Int}
    (ready : Ready cfg p claims w (.cancelStore i bookNum trainFd)) :
    ∃ claims', Advance cfg p claims (w.proceed cfg (.cancelStore i bookNum trainFd)) claims' := by
  obtain ⟨c, serves, writes⟩ := ready.stands.fits
  have running := ready.stands.running (by simp)
  simp only [World.proceed, serves.index, serves.train]
  rw [if_neg (by simp [storeCell_halt, running])]
  exact ⟨_, ready.flush writes rfl (fun busy => absurd rfl busy) rfl⟩

theorem advance_payStore {trainFd : Int} {k : Nat}
    (ready : Ready cfg p claims w (.payStore i trainFd k)) :
    ∃ claims', Advance cfg p claims (w.proceed cfg (.payStore i trainFd k)) claims' := by
  obtain ⟨c, pays, rfl, writes⟩ := ready.stands.fits
  have running := ready.stands.running (by simp)
  simp only [World.proceed, pays.train]
  rw [if_neg (by simp [storeCell_halt, running])]
  obtain ⟨requests, records⟩ := storeCell_serves cfg w (cfg.trains c.1) (c.2 : Nat) '1'
  have again : Pays cfg w i (cfg.trains c.1) c.1 := ⟨pays.status, pays.on, rfl⟩
  exact ⟨_, ready.flush writes rfl (fun _ => (storeCell_halt ..).trans running)
    ⟨rfl, c.1, again.of_slots requests records⟩⟩

/-- The head of the payment loop. -/
theorem advance_pay {trainFd : Int} {k : Nat} (ready : Ready cfg p claims w (.pay i trainFd k)) :
    ∃ claims', Advance cfg p claims (w.proceed cfg (.pay i trainFd k)) claims' := by
  obtain ⟨quiet, j, pays⟩ := ready.stands.fits
  have running := ready.stands.running (by simp)
  simp only [World.proceed]
  split
  · rename_i bound
    by_cases chosen : (w.recordP i).seatStat k = .CHOSEN
    · rw [if_pos chosen]
      let c : Cell := (j, ⟨k, bound⟩)
      have claimed : claims.mark (p, i) c = .claimed := ready.claimed pays.on chosen
      have sole : Claims.Sole Prod.fst (claims.put p (p, i) c Seat.PAID.mark) :=
        ready.sole.settle (o := (p, i)) quiet claimed
      have records : ((((w.setRecord i ((w.recordP i).setSeat k .PAID)).setStatus i
          .BOOKED).addChosen i (-1)).recordP) =
            Function.update w.recordP i (noted w i k .PAID (-1)) := by
        simp [World.addChosen, World.setRecord, World.setStatus, World.setRequest, noted,
          Record.setSeat]
      have noted : (w.settle.setRecord i (noted w i k .PAID (-1))).Sound cfg :=
        ready.stands.sound.setRecord pays.status rfl
      have sound := noted.setStatus (i := i) pays.status (.inr rfl)
      refine ⟨_, ready.put sole pays.on records rfl rfl
        (sound.of_slots rfl records fun j => Tables.settle_rest _ _) running rfl
        ⟨c, ⟨.inr ?_, on_of_records pays.on records rfl, pays.train⟩, rfl, rfl⟩⟩
      simp [World.addChosen, World.setRecord, World.setStatus, World.setRequest]
    · rw [if_neg chosen]
      exact ⟨_, ready.read rfl (fun _ => running) ⟨quiet, j, pays⟩⟩
  · exact ⟨_, ready.answer quiet rfl⟩

/-! ## The beginning of a request -/

omit [DecidableEq Process] in
/-- Between two requests nothing is about to be written. -/
theorem Ready.store (ready : Ready cfg p claims w .idle) (i : Nat) (text : List Char) :
    Ready cfg p claims (w.store i text) .idle := by
  have next : Advance cfg p claims (w.store i text, .idle) claims :=
    ready.stay (ready.stands.sound.store i text) (fun busy => absurd rfl busy) rfl rfl
      ready.stands.fits
  exact next.ready

omit [DecidableEq Process] in
/-- An access is logged. -/
theorem Ready.log (ready : Ready cfg p claims w .idle) (access : Access) :
    Ready cfg p claims (w.log access) .idle := by
  have next : Advance cfg p claims (w.log access, .idle) claims :=
    ready.answer ready.stands.fits rfl
  exact next.ready

theorem advance_beginShift (ready : Ready cfg p claims w .idle) (running : w.halt = none)
    (shift : (w.requestP i).status = .SHIFT) :
    ∃ claims', Advance cfg p claims (w.beginShift cfg env i) claims' := by
  have quiet : claims.pending p = none := ready.stands.fits
  have live := ready.live (i := i) (by simp [shift])
  unfold World.beginShift
  split
  · exact ⟨_, ready.closeConn live quiet rfl⟩
  dsimp only
  split
  · exact ⟨_, ready.answer quiet rfl⟩
  · rename_i fd found
    exact ⟨_, ready.read rfl (fun _ => running) ⟨quiet, shift, World.exists_of_trainFd found⟩⟩

theorem advance_handleBooked (ready : Ready cfg p claims w .idle)
    (booked : (w.requestP i).status = .BOOKED) :
    ∃ claims', Advance cfg p claims (w.handleBooked i, .idle) claims' := by
  have quiet : claims.pending p = none := ready.stands.fits
  have live := ready.live (i := i) (by simp [booked])
  unfold World.handleBooked
  split
  · exact ⟨_, ready.closeConn live quiet rfl⟩
  split
  · exact ⟨_, ready.stay (ready.stands.sound.setStatus (.inr booked) (.inl rfl))
      (fun busy => absurd rfl busy) rfl rfl quiet⟩
  · exact ⟨_, ready.closeConn live quiet rfl⟩

omit [DecidableEq Process] in
theorem advance_beginPay (ready : Ready cfg p claims w .idle) (running : w.halt = none)
    (seat : (w.requestP i).status = .SEAT) :
    ∃ claims', Advance cfg p claims (w.beginPay cfg i) claims' := by
  have quiet : claims.pending p = none := ready.stands.fits
  obtain ⟨j, on⟩ := ready.stands.sound.bound i (.inl seat)
  unfold World.beginPay
  split
  · exact ⟨_, ready.answer quiet rfl⟩
  · have same := World.lseek_aside cfg w (w.recordP i).trainFd 0 false
    refine ⟨_, ready.read (World.lseek_settle cfg w _ 0 false) (fun _ => ?_) ⟨quiet, j, ?_, ?_, on⟩⟩
    · exact (World.lseek_halt ..).trans running
    · rw [same.requestP]
      exact .inl seat
    · unfold Tables.On
      rw [same.recordP]
      exact on

theorem advance_beginCancel {bookNum trainFd : Int} (ready : Ready cfg p claims w .idle)
    (running : w.halt = none) (serves : Serves cfg w i bookNum trainFd c)
    (chosen : (w.recordP i).seatStat c.2 = .CHOSEN) :
    ∃ claims', Advance cfg p claims (w.beginCancel cfg i bookNum trainFd) claims' := by
  have quiet : claims.pending p = none := ready.stands.fits
  have live := ready.live (i := i) (by simp [serves.status])
  have claimed : claims.mark (p, i) c = .claimed := ready.claimed serves.on chosen
  have sole : Claims.Sole Prod.fst (claims.put p (p, i) c Seat.UNKNOWN.mark) :=
    ready.sole.release (o := (p, i)) quiet claimed
  unfold World.beginCancel
  simp only [serves.index, World.setSeatStat_ok live.1 c.2.isLt]
  rw [if_neg (by simp [World.setRecord, World.log, running])]
  have records := note_records (w := w) (i := i) (.seat (c.2 : Nat)) c.2 .UNKNOWN (-1)
  exact ⟨_, ready.put sole serves.on records rfl rfl
    (note_sound ready.stands.sound (.inl serves.status) rfl records) running rfl
    ⟨c, ⟨serves.status, on_of_records serves.on records rfl, serves.train, serves.index⟩, rfl⟩⟩

theorem advance_beginSeat (ready : Ready cfg p claims w .idle) (running : w.halt = none)
    (seat : (w.requestP i).status = .SEAT)
    (range : 1 ≤ atoi (w.requestP i).buf ∧ atoi (w.requestP i).buf ≤ SEAT_NUM) :
    ∃ claims', Advance cfg p claims (w.beginSeat cfg env i) claims' := by
  have quiet : claims.pending p = none := ready.stands.fits
  have live := ready.live (i := i) (by simp [seat])
  obtain ⟨j, on⟩ := ready.stands.sound.bound i (.inl seat)
  obtain ⟨k, index⟩ : ∃ k : Nat, atoi (w.requestP i).buf - 1 = k :=
    ⟨(atoi (w.requestP i).buf - 1).toNat, by omega⟩
  have bound : k < SEAT_NUM := by omega
  let c : Cell := (j, ⟨k, bound⟩)
  unfold World.beginSeat
  dsimp only
  rw [World.addORcancel_ok live.1 bound index]
  dsimp only
  by_cases chosen : (w.recordP i).seatStat k = .CHOSEN
  · have again : ((w.log (.seat k)).recordP i).seatStat k = .CHOSEN := chosen
    rw [if_pos chosen, if_neg (by decide), World.addORcancel_ok live.1 bound index, if_pos again]
    dsimp only
    rw [if_pos rfl]
    exact advance_beginCancel (c := c) ((ready.log (.seat k)).log (.seat k)) running
      ⟨seat, on, on, index⟩ chosen
  · have notZero : ¬ atoi (w.requestP i).buf = 0 := by omega
    rw [if_neg chosen, if_pos (by decide), if_neg notZero]
    exact ⟨_, ready.read rfl (fun _ => running) ⟨quiet, c, seat, on, on, index⟩⟩

/-- A stored line of a live connection begins. -/
theorem advance_beginLine (ready : Ready cfg p claims w .idle) (running : w.halt = none)
    (live : w.Live cfg i) (range : w.SeatInRange i) :
    ∃ claims', Advance cfg p claims (w.beginLine cfg env i) claims' := by
  have quiet : claims.pending p = none := ready.stands.fits
  have valid := (ready.stands.sound.live i).mpr live
  unfold World.beginLine
  split
  · exact ⟨_, ready.closeConn live quiet rfl⟩
  rename_i exits
  cases status : (w.requestP i).status with
  | INVALID => exact absurd status valid
  | SHIFT => exact advance_beginShift ready running status
  | BOOKED => exact advance_handleBooked ready status
  | SEAT =>
    dsimp only
    split
    · exact advance_beginPay ready running status
    · rename_i pays
      exact advance_beginSeat ready running status
        (range ⟨status, exits, fun line => pays ⟨rfl, line⟩⟩)

/-- A process serves a request up to its first section. -/
theorem advance_begin {action : Action} {next : World × Phase}
    (ready : Ready cfg p claims w .idle) (allowed : inRange w action)
    (begun : w.begin cfg action = some next) : ∃ claims', Advance cfg p claims next claims' := by
  have quiet : claims.pending p = none := ready.stands.fits
  unfold World.begin at begun
  split at begun
  · cases begun
  rename_i going
  have running : w.halt = none := by simpa using going
  cases action with
  | accept fd =>
    dsimp only at begun
    split at begun
    · rename_i free
      obtain rfl := Option.some.inj begun
      exact ⟨_, ready.stay (ready.stands.sound.acceptConn free) (fun busy => absurd rfl busy)
        rfl rfl quiet⟩
    · cases begun
  | timeout i =>
    dsimp only at begun
    split at begun
    · rename_i live
      obtain rfl := Option.some.inj begun
      exact ⟨_, ready.closeConn live quiet rfl⟩
    · cases begun
  | recv i chunk env =>
    dsimp only at begun
    split at begun
    · rename_i possible
      split at begun
      · obtain rfl := Option.some.inj begun
        exact ⟨_, ready.closeConn possible.1 quiet rfl⟩
      · rename_i text line
        obtain rfl := Option.some.inj begun
        have received : w.received (.recv i chunk env) = some (w.toTables.store i text, i) := by
          simp [Tables.received, line]
        exact advance_beginLine (ready.store i text) running (Tables.live_store.mpr possible.1)
          (allowed _ received)
      · cases begun
    · cases begun

end

end NTUSP.Server
