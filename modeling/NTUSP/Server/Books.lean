import NTUSP.Server.Deeds

/-!
# Steps on the books

A step whose seat line is in range is an `accept`, the end of a connection or a deed, with
no assumption on the calls. So the slots of the tables stay in order, and the cells agree
with the records, in every run whose seat lines are in range.
-/

namespace NTUSP.Server

open NTUSP.Library CString

namespace Tables

variable {cfg : Config} {t : Tables} {i k : Nat} {j : Fin TRAIN_NUM}

/-- A connection in `SHIFT` is booked on a train. -/
theorem Sound.bind (sound : t.Sound cfg) (shift : (t.requestP i).status = .SHIFT)
    (shiftId : Int) : (t.bind i shiftId (cfg.trains j)).Sound cfg := by
  apply sound.serve i
  · simp [Tables.bind, Tables.setStatus, setRequest, setRecord]
  · intro k other
    simp [Tables.bind, Tables.setStatus, setRequest, setRecord, other]
  · simp [shift]
  · simp
  · exact ⟨j, by simp⟩
  · exact sound.rest

theorem Seated.bind (seated : t.Seated cfg) (fresh : t.recordP i = initRecord) (shiftId fd : Int) :
    (t.bind i shiftId fd).Seated cfg :=
  (seated.setRecord (i := i) (by simp [fresh, initRecord])).of_same rfl rfl

/-- A seat has a byte. -/
theorem Seated.inside (seated : t.Seated cfg) (bound : k < SEAT_NUM) :
    2 * k < (t.files (cfg.trains j)).bytes.length := by
  obtain ⟨seat, known⟩ := seated.readable j k bound
  exact (List.getElem?_eq_some_iff.mp known).1

/-- The slots of the books are in order, and the cells agree with the records. -/
structure Kept (cfg : Config) (t : Tables) : Prop where
  sound : t.settle.Sound cfg
  seated : t.settle.Seated cfg

/-- A seat of a record is at rest in `SHIFT`. -/
theorem Kept.fresh (kept : t.Kept cfg) (shift : (t.requestP i).status = .SHIFT) :
    t.recordP i = initRecord := kept.sound.fresh i (by simp [shift])

/-- The cell of a seat that a record holds. -/
theorem Kept.held (kept : t.Kept cfg) (bound : k < SEAT_NUM) (on : t.On cfg i j) {seat : Seat}
    (status : (t.recordP i).seatStat k = seat) (held : seat ≠ .UNKNOWN) :
    t.seatByte cfg j k = some seat.byte := by
  subst status
  exact kept.seated.held i j k bound on held

theorem Kept.store (kept : t.Kept cfg) (i : Nat) (text : List Char) : (t.store i text).Kept cfg where
  sound := kept.sound.store i text
  seated := kept.seated.of_same rfl rfl

end Tables

section

variable {cfg : Config} {w : World} {i : Nat} {events : List SeatEvent} {u : Tables}

/-- The slots behind a deed are in order again. -/
theorem Deed.sound (deed : Deed cfg w i events u) (sound : w.settle.Sound cfg)
    (live : w.Live cfg i) : u.Sound cfg := by
  cases deed with
  | nothing => exact sound
  | closed => exact sound.closeConn live
  | again booked => exact sound.setStatus (.inr booked) (.inl rfl)
  | bind shift => exact sound.bind shift _
  | choose line index bound record other available => exact sound.mark (.inl line.1) ..
  | cancel line index bound record chosen => exact sound.mark (.inl line.1) ..
  | pay seat line record some =>
    exact sound.effects (Tables.payTurns_effects (t := w.settle) (.inl seat) record
      (Nat.le_refl SEAT_NUM)).1

/-- The cells behind a deed agree with the records again. -/
theorem Deed.seated (deed : Deed cfg w i events u) (kept : w.Kept cfg) : u.Seated cfg := by
  have seated := kept.seated
  cases deed with
  | nothing => exact seated
  | closed => exact (seated.setRecord (r := initRecord) fun _ => rfl).of_same rfl rfl
  | again booked => exact seated.of_same rfl rfl
  | bind shift => exact seated.bind (kept.sound.fresh i (by simp [shift])) _ _
  | choose line index bound record other available =>
    have zero := seated.zero_of_available bound available
    exact seated.mark .CHOSEN 1 record bound fun i' _ => seated.unknown_of_zero bound zero i'
  | cancel line index bound record chosen =>
    exact seated.mark .UNKNOWN (-1) record bound (seated.others_of_chosen bound record chosen)
  | pay seat line record some =>
    exact seated.effects kept.sound (Tables.payTurns_effects (t := w.settle) (.inl seat) record
      (Nat.le_refl SEAT_NUM)).1

/-- A step on the books. -/
inductive Turn (cfg : Config) (w : World) (action : Action) : List SeatEvent → Tables → Prop where
  | accept {fd : Nat} (free : w.Free cfg fd) : Turn cfg w action [] (w.settle.acceptConn fd)
  | close {i : Nat} (live : w.Live cfg i) : Turn cfg w action [] (w.settle.closeConn i)
  | line {i : Nat} {text : List Char} {events : List SeatEvent} {u : Tables}
      (live : w.Live cfg i) (received : w.received action = some (w.toTables.store i text, i))
      (deed : Deed cfg (w.store i text) i events u) : Turn cfg w action events u

/-- What a step does to seats. -/
def World.stepEvents (cfg : Config) (w : World) (action : Action) : List SeatEvent :=
  match action with
  | .recv i chunk env =>
      match handleRead chunk with
      | .line text => (w.store i text).seatEvents cfg env i
      | _ => []
  | _ => []

/-- A step whose seat line is in range. Its calls may fail. -/
def inRange (w : World) (action : Action) : Prop := w.OnLine Tables.SeatInRange action

instance (w : World) (action : Action) : Decidable (inRange w action) :=
  inferInstanceAs (Decidable (w.OnLine Tables.SeatInRange action))

/-- A step in range is a turn, with its events. -/
theorem World.step_turn {action : Action} {t : World} (sound : w.settle.Sound cfg)
    (allowed : inRange w action) (transition : w.step cfg action = some t) :
    Turn cfg w action (w.stepEvents cfg action) t.settle := by
  unfold step at transition
  split at transition
  · cases transition
  rename_i running
  have going : w.halt = none := by simpa using running
  cases action with
  | accept fd =>
    dsimp only at transition
    split at transition
    · rename_i free
      have next := Option.some.inj transition
      subst next
      exact .accept free
    · cases transition
  | timeout i =>
    dsimp only at transition
    split at transition
    · rename_i live
      have next := Option.some.inj transition
      subst next
      exact .close live
    · cases transition
  | recv i chunk env =>
    dsimp only at transition
    split at transition
    · rename_i possible
      obtain ⟨live, _⟩ := possible
      unfold stepEvents
      dsimp only
      split at transition
      · rename_i eof
        have next := Option.some.inj transition
        subst next
        rw [eof]
        exact .close live
      · rename_i text line
        have next := Option.some.inj transition
        subst next
        have received : w.received (.recv i chunk env) = some (w.toTables.store i text, i) := by
          simp [Tables.received, line]
        rw [line]
        exact .line live received (handleLine_deed (w := w.store i text) (sound.store i text)
          going (Tables.live_store.mpr live) (allowed _ received))
      · cases transition
    · cases transition

theorem Turn.sound {action : Action} (turn : Turn cfg w action events u)
    (sound : w.settle.Sound cfg) : u.Sound cfg := by
  cases turn with
  | accept free => exact sound.acceptConn free
  | close live => exact sound.closeConn live
  | line live received deed => exact deed.sound (sound.store _ _) (Tables.live_store.mpr live)

theorem Turn.seated {action : Action} (turn : Turn cfg w action events u) (kept : w.Kept cfg) :
    u.Seated cfg := by
  cases turn with
  | accept free => exact kept.seated.of_same rfl rfl
  | close live => exact (kept.seated.setRecord (r := initRecord) fun _ => rfl).of_same rfl rfl
  | line live received deed => exact deed.seated (kept.store _ _)

end

variable {cfg : Config} {heap : Nat → List Char} {disk : Fin TRAIN_NUM → List Char} {w : World}

theorem initServer_kept (unlocked : Unlocked disk) : (World.initServer cfg heap disk).Kept cfg where
  sound := World.initServer_sound cfg heap disk
  seated := initServer_seated unlocked

theorem kept_step {action : Action} {t : World} (kept : w.Kept cfg) (allowed : inRange w action)
    (transition : w.step cfg action = some t) : t.Kept cfg := by
  have turn := World.step_turn kept.sound allowed transition
  exact ⟨turn.sound kept.sound, turn.seated kept⟩

/-- The slots are in order in every run whose seat lines are in range, whatever calls fail and
whatever is on the disk. -/
theorem books_sound_reached (reached : (machine cfg heap disk).Reach inRange w) :
    w.settle.Sound cfg := by
  apply reached.invariant (fun w => w.settle.Sound cfg)
  · rintro w rfl
    exact World.initServer_sound cfg heap disk
  · intro w action t _ sound allowed transition
    exact (World.step_turn sound allowed transition).sound sound

/-- The books are in order in every run whose seat lines are in range. -/
theorem kept_reached (unlocked : Unlocked disk)
    (reached : (machine cfg heap disk).Reach inRange w) : w.Kept cfg := by
  apply reached.invariant (fun w => w.Kept cfg)
  · rintro w rfl
    exact initServer_kept unlocked
  · intro w action t _ kept allowed transition
    exact kept_step kept allowed transition

/-- A property of the books that every turn keeps holds in every run in range. -/
theorem books_invariant (Inv : Tables → Prop)
    (initially : Inv (World.initServer cfg heap disk).settle)
    (preserved : ∀ (w : World) action events u, w.settle.Sound cfg → Inv w.settle →
      Turn cfg w action events u → Inv u)
    (reached : (machine cfg heap disk).Reach inRange w) : Inv w.settle := by
  apply reached.invariant (fun w => Inv w.settle)
  · rintro w rfl
    exact initially
  · intro w action t prior holds allowed transition
    have sound := books_sound_reached prior
    exact preserved w action _ _ sound holds (World.step_turn sound allowed transition)

end NTUSP.Server
