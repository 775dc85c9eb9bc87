import NTUSP.Server.Shared

/-!
# A process goes on in the claims

Whatever a process does next, the claims follow with one step: nothing, a connection that
ends, a mark that is put, or a cell that is written. Only the mark behind a `checkCurr` that
found the seat available depends on the other processes, so there the lemma asks that the
claim is sole.
-/

namespace NTUSP.Server

open NTUSP.Library CString

/-- Slots are in order whatever the train files hold. -/
theorem Tables.Sound.of_slots {cfg : Config} {t u : Tables} (sound : t.Sound cfg)
    (requests : u.requestP = t.requestP) (records : u.recordP = t.recordP)
    (rest : ∀ j, (u.files (cfg.trains j)).Rest) : u.Sound cfg := by
  refine ⟨?_, fun i => ?_, fun i => ?_, fun i => ?_, rest⟩
  · rw [requests]
    exact sound.listen
  · unfold Tables.Live
    rw [requests]
    exact sound.live i
  · rw [requests, records]
    exact sound.bound i
  · rw [requests, records]
    exact sound.fresh i

section

variable {cfg : Config} {w t : World} {i : Nat} {trainFd : Int}

theorem Serves.of_slots {bookNum : Int} {c : Cell} (serves : Serves cfg w i bookNum trainFd c)
    (requests : t.requestP = w.requestP) (records : t.recordP = w.recordP) :
    Serves cfg t i bookNum trainFd c := by
  obtain ⟨status, on, train, index⟩ := serves
  refine ⟨?_, ?_, train, index⟩
  · rw [requests]
    exact status
  · unfold Tables.On
    rw [records]
    exact on

theorem Pays.of_slots {j : Fin TRAIN_NUM} (pays : Pays cfg w i trainFd j)
    (requests : t.requestP = w.requestP) (records : t.recordP = w.recordP) :
    Pays cfg t i trainFd j := by
  obtain ⟨status, on, train⟩ := pays
  refine ⟨?_, ?_, train⟩
  · rw [requests]
    exact status
  · unfold Tables.On
    rw [records]
    exact on

/-- Where a process stands does not depend on the train files. -/
theorem Phase.Fits.of_slots {pending : Option (Cell × Claims.Mark)} {phase : Phase}
    (fits : phase.Fits cfg w pending) (requests : t.requestP = w.requestP)
    (records : t.recordP = w.recordP) : phase.Fits cfg t pending := by
  cases phase with
  | idle => exact fits
  | occupied i env call fd =>
    obtain ⟨quiet, shift, train⟩ := fits
    refine ⟨quiet, ?_, train⟩
    rw [requests]
    exact shift
  | checkCurr i env call bookNum trainFd =>
    obtain ⟨quiet, c, serves⟩ := fits
    exact ⟨quiet, c, serves.of_slots requests records⟩
  | take i bookNum trainFd =>
    obtain ⟨quiet, c, serves, unknown⟩ := fits
    refine ⟨quiet, c, serves.of_slots requests records, ?_⟩
    unfold Tables.On
    rw [records]
    exact unknown
  | takeStore i bookNum trainFd =>
    obtain ⟨c, serves, writes⟩ := fits
    exact ⟨c, serves.of_slots requests records, writes⟩
  | cancelStore i bookNum trainFd =>
    obtain ⟨c, serves, writes⟩ := fits
    exact ⟨c, serves.of_slots requests records, writes⟩
  | pay i trainFd k =>
    obtain ⟨quiet, j, pays⟩ := fits
    exact ⟨quiet, j, pays.of_slots requests records⟩
  | payStore i trainFd k =>
    obtain ⟨c, pays, index, writes⟩ := fits
    exact ⟨c, pays.of_slots requests records, index, writes⟩

end

/-- A connection in `SEAT` or `BOOKED` keeps its train. -/
theorem Tables.Sound.setRecord {cfg : Config} {t : Tables} (sound : t.Sound cfg) {i : Nat} {r : Record}
    (status : (t.requestP i).status = .SEAT ∨ (t.requestP i).status = .BOOKED)
    (train : r.trainFd = (t.recordP i).trainFd) : (t.setRecord i r).Sound cfg := by
  apply sound.serve i
  · rfl
  · intro k other
    simp [Tables.setRecord, other]
  · exact (sound.live i).mpr (sound.live_of_seat status)
  · exact status
  · simpa [Tables.setRecord, train] using sound.bound i status
  · exact sound.rest

section

variable {Process : Type}

/-- The state of process `p` as it goes on. -/
structure Ready (cfg : Config) (p : Process) (claims : Claims.State Process (Process × Nat) Cell)
    (w : World) (phase : Phase) : Prop where
  sole : Claims.Sole Prod.fst claims
  stored : Stored (w.disk cfg) claims.cell
  stands : Stands cfg w phase (fun i => claims.mark (p, i)) (claims.pending p)

/-- Process `p` has gone on, and the claims with it. -/
structure Advance (cfg : Config) (p : Process) (claims : Claims.State Process (Process × Nat) Cell)
    (next : World × Phase) (claims' : Claims.State Process (Process × Nat) Cell) : Prop where
  ready : Ready cfg p claims' next.1 next.2
  settled : ∀ c, claims.cell c = .settled → claims'.cell c = .settled
  mark : ∀ q i, q ≠ p → claims'.mark (q, i) = claims.mark (q, i)
  pending : ∀ q, q ≠ p → claims'.pending q = claims.pending q
  clear : ∀ c, Claims.Clear claims c →
    Claims.Clear claims' c ∨ claims'.pending p = some (c, .claimed)

variable {cfg : Config} {p : Process} {claims : Claims.State Process (Process × Nat) Cell}
  {w t : World} {phase phase' : Phase} {i : Nat} {c : Cell}

namespace Ready

/-- Nothing changes in the records and on disk. -/
theorem stay (ready : Ready cfg p claims w phase) (sound : t.settle.Sound cfg)
    (running : phase' ≠ .idle → t.halt = none) (records : t.recordP = w.recordP)
    (disk : t.disk cfg = w.disk cfg) (fits : phase'.Fits cfg t (claims.pending p)) :
    Advance cfg p claims (t, phase') claims where
  ready :=
    { sole := ready.sole
      stored := by
        rw [disk]
        exact ready.stored
      stands :=
        { sound := sound
          running := running
          on := by
            unfold Tables.On
            rw [records]
            exact ready.stands.on
          off := by
            unfold Tables.On
            rw [records]
            exact ready.stands.off
          fits := fits } }
  settled _ same := same
  mark _ _ _ := rfl
  pending _ _ := rfl
  clear _ same := .inl same

/-- The process has read. -/
theorem read (ready : Ready cfg p claims w phase) (same : t.settle = w.settle)
    (running : phase' ≠ .idle → t.halt = none) (fits : phase'.Fits cfg t (claims.pending p)) :
    Advance cfg p claims (t, phase') claims :=
  ready.stay (by rw [same]; exact ready.stands.sound) running (Tables.recordP_of_settle same)
    (funext fun _ => Tables.bytes_of_settle same _) fits

/-- The process has read, and is done with the request. -/
theorem answer (ready : Ready cfg p claims w phase) (quiet : claims.pending p = none)
    (same : t.settle = w.settle) : Advance cfg p claims (t, .idle) claims :=
  ready.read same (fun busy => absurd rfl busy) quiet

variable [DecidableEq Process]

/-- A connection has no seat afterwards, and the other records are as before. -/
theorem clear (ready : Ready cfg p claims w phase) (quiet : claims.pending p = none)
    (sound : t.settle.Sound cfg) (own : (t.recordP i).seatStat = fun _ => .UNKNOWN)
    (others : ∀ i', i' ≠ i → t.recordP i' = w.recordP i') (disk : t.disk cfg = w.disk cfg) :
    Advance cfg p claims (t, .idle) (claims.drop (p, i)) := by
  refine ⟨⟨ready.sole.drop (o := (p, i)) quiet, ?_, sound, fun absent => absurd rfl absent, ?_, ?_,
    quiet⟩, fun _ same => same, fun q i' other => ?_, fun _ _ => rfl, fun _ same => .inl same.drop⟩
  · rw [disk]
    exact ready.stored
  · intro i' c on
    dsimp only
    rw [Claims.State.drop_mark]
    by_cases same : i' = i
    · subst same
      rw [if_pos rfl, own]
      rfl
    · rw [if_neg (by simp [same])]
      unfold Tables.On at on
      rw [others i' same] at on ⊢
      exact ready.stands.on i' c on
  · intro i' c off
    rw [Claims.State.drop_mark]
    by_cases same : i' = i
    · rw [if_pos (by rw [same])]
    · rw [if_neg (by simp [same])]
      unfold Tables.On at off
      rw [others i' same] at off
      exact ready.stands.off i' c off
  · funext c
    rw [Claims.State.drop_mark, if_neg (by simp [other])]

/-- A connection in `SHIFT` is booked on a train. -/
theorem bind (ready : Ready cfg p claims w phase) (shift : (w.requestP i).status = .SHIFT)
    (quiet : claims.pending p = none) {j : Fin TRAIN_NUM} {shiftId : Int}
    (bound : t.settle = w.settle.bind i shiftId (cfg.trains j)) :
    Advance cfg p claims (t, .idle) (claims.drop (p, i)) := by
  have same : t.settle = (w.bind i shiftId (cfg.trains j)).settle := bound
  have records := Tables.recordP_of_settle same
  have fresh : w.recordP i = initRecord := ready.stands.sound.fresh i (by simp [shift])
  refine ready.clear quiet ?_ ?_ (fun i' other => ?_)
    (funext fun _ => Tables.bytes_of_settle same _)
  · rw [bound]
    exact ready.stands.sound.bind shift shiftId
  · rw [records]
    simp [Tables.bind, Tables.setStatus, Tables.setRequest, Tables.setRecord, fresh, initRecord]
  · rw [records]
    simp [Tables.bind, Tables.setStatus, Tables.setRequest, Tables.setRecord, other]

/-- A connection ends. -/
theorem closeConn (ready : Ready cfg p claims w phase) (live : w.Live cfg i)
    (quiet : claims.pending p = none) (closed : t.settle = w.settle.closeConn i) :
    Advance cfg p claims (t, .idle) (claims.drop (p, i)) := by
  have same : t.settle = (w.toTables.closeConn i).settle := closed
  have records := Tables.recordP_of_settle same
  refine ready.clear quiet ?_ ?_ (fun i' other => ?_)
    (funext fun _ => Tables.bytes_of_settle same _)
  · rw [closed]
    exact ready.stands.sound.closeConn live
  · rw [records]
    simp [Tables.closeConn, Tables.setRequest, Tables.setRecord, initRecord]
  · rw [records]
    simp [Tables.closeConn, Tables.setRequest, Tables.setRecord, other]

/-- A seat changes in one record, and its cell is written next. -/
theorem put (ready : Ready cfg p claims w phase) {seat : Seat}
    (sole : Claims.Sole Prod.fst (claims.put p (p, i) c seat.mark)) (on : w.On cfg i c.1)
    {r : Record} (records : t.recordP = Function.update w.recordP i r)
    (train : r.trainFd = (w.recordP i).trainFd)
    (seats : r.seatStat = Function.update (w.recordP i).seatStat c.2 seat)
    (sound : t.settle.Sound cfg) (running : t.halt = none) (disk : t.disk cfg = w.disk cfg)
    (fits : phase'.Fits cfg t (some (c, seat.mark))) :
    Advance cfg p claims (t, phase') (claims.put p (p, i) c seat.mark) := by
  have own : t.recordP i = r := by rw [records, Function.update_self]
  have others : ∀ i', i' ≠ i → t.recordP i' = w.recordP i' := by
    intro i' other
    rw [records, Function.update_of_ne other]
  have trains : ∀ i' j, t.On cfg i' j ↔ w.On cfg i' j := by
    intro i' j
    unfold Tables.On
    by_cases same : i' = i
    · rw [same, own, train]
    · rw [others i' same]
  refine ⟨⟨sole, ?_, sound, fun _ => running, ?_, ?_, ?_⟩, fun _ same => same,
    fun q i' other => ?_, fun q other => ?_, fun c' same => ?_⟩
  · rw [disk]
    exact ready.stored
  · intro i' c' on'
    have on' := (trains i' c'.1).mp on'
    dsimp only
    rw [Claims.State.put_mark]
    by_cases same : i' = i
    · subst same
      rw [own, seats]
      by_cases here : c' = c
      · subst here
        rw [if_pos ⟨rfl, rfl⟩, Function.update_self]
      · have elsewhere : (c'.2 : Nat) ≠ c.2 := by
          intro equal
          apply here
          have train : c'.1 = c.1 := cfg.distinct (Int.ofNat.inj (on'.symm.trans on))
          exact Prod.ext train (Fin.ext equal)
        rw [if_neg fun both => here both.2, Function.update_of_ne elsewhere]
        exact ready.stands.on i' c' on'
    · rw [if_neg (by simp [same]), others i' same]
      exact ready.stands.on i' c' on'
  · intro i' c' off
    rw [Claims.State.put_mark, if_neg]
    · exact ready.stands.off i' c' fun on' => off ((trains i' c'.1).mpr on')
    · rintro ⟨same, rfl⟩
      obtain ⟨_, rfl⟩ := Prod.mk.inj same
      exact off ((trains i' c'.1).mpr on)
  · rw [Claims.State.put_pending, if_pos rfl]
    exact fits
  · funext c'
    rw [Claims.State.put_mark, if_neg]
    rintro ⟨same, _⟩
    exact other (Prod.mk.inj same).1
  · rw [Claims.State.put_pending, if_neg other]
  · by_cases here : c' = c
    · subst here
      -- A mark is given back or settled only on a claimed cell, so this one is a claim.
      have writes : (claims.put p (p, i) c' seat.mark).pending p = some (c', seat.mark) := by
        rw [Claims.State.put_pending, if_pos rfl]
      have backed := sole.backed p c' seat.mark writes
      cases seat with
      | CHOSEN => exact .inr writes
      | UNKNOWN | PAID => exact absurd (same.free.symm.trans backed.1) (by decide)
    · exact .inl (same.put here)

/-- A cell is written. -/
theorem flush (ready : Ready cfg p claims w phase) {m : Claims.Mark}
    (writes : claims.pending p = some (c, m))
    (stored : t.settle = (w.storeCell cfg (cfg.trains c.1) (c.2 : Nat) (markByte m)).settle)
    (running : phase' ≠ .idle → t.halt = none) (fits : phase'.Fits cfg t none) :
    Advance cfg p claims (t, phase') (claims.flush p c m) := by
  have byte := ready.stored c
  have inside : 2 * (c.2 : Nat) < (w.files (cfg.trains c.1)).bytes.length :=
    (List.getElem?_eq_some_iff.mp byte).1
  rw [World.storeCell_ok (k := c.2) (markByte m) rfl] at stored
  have tables : t.toTables.settle = (w.setFile (cfg.trains c.1)
    ((w.files (cfg.trains c.1)).put c.2 (markByte m))).toTables.settle := stored
  have requests : t.requestP = w.requestP := (Tables.requestP_of_settle tables).trans rfl
  have records : t.recordP = w.recordP := (Tables.recordP_of_settle tables).trans rfl
  have disk : ∀ j, t.disk cfg j =
      if j = c.1 then (w.disk cfg c.1).set (2 * (c.2 : Nat)) (markByte m) else w.disk cfg j := by
    intro j
    have bytes : t.disk cfg j = ((w.setFile (cfg.trains c.1)
        ((w.files (cfg.trains c.1)).put c.2 (markByte m))).files (cfg.trains j)).bytes :=
      Tables.bytes_of_settle tables _
    rw [bytes]
    unfold World.disk
    rw [← TrainFile.put_bytes inside]
    by_cases same : j = c.1
    · subst same
      simp [World.setFile]
    · have other : (cfg.trains j : Int) ≠ cfg.trains c.1 :=
        fun equal => same (cfg.distinct (Int.ofNat.inj equal))
      simp [World.setFile, other, same]
  refine ⟨⟨ready.sole.flush writes, fun c' => ?_, ?_, running, ?_, ?_, ?_⟩,
    fun c' => ready.sole.flush_settled writes, fun _ _ _ => rfl, fun q other => ?_,
    fun _ same => .inl (same.flush writes)⟩
  · rw [Claims.State.flush_cell, disk]
    by_cases here : c' = c
    · subst here
      rw [if_pos rfl, if_pos rfl]
      exact List.getElem?_set_self inside
    · rw [if_neg here]
      split
      · rename_i train
        have elsewhere : 2 * (c.2 : Nat) ≠ 2 * (c'.2 : Nat) := by
          intro equal
          exact here (Prod.ext train (Fin.ext (by omega)))
        rw [List.getElem?_set_ne elsewhere, ← train]
        exact ready.stored c'
      · exact ready.stored c'
  · exact ready.stands.sound.of_slots requests records fun j => t.settle_rest _
  · unfold Tables.On
    rw [records]
    exact ready.stands.on
  · unfold Tables.On
    rw [records]
    exact ready.stands.off
  · rw [Claims.State.flush_pending, if_pos rfl]
    exact fits
  · rw [Claims.State.flush_pending, if_neg other]

end Ready
end
end NTUSP.Server
