import NTUSP.Server.Settle

/-!
# What no line breaks

Whatever a client sends, and whatever calls fail, a step leaves every slot with its own
descriptor or with none, and no train file gets shorter.
-/

namespace NTUSP.Server

open NTUSP.Library CString

/-- From `w` to `t` at most connection `i` ended, and no file became shorter. -/
structure Frame (i : Nat) (w t : World) : Prop where
  others : ∀ k, k ≠ i → t.requestP k = w.requestP k
  own : (t.requestP i).connFd = (w.requestP i).connFd ∨ (t.requestP i).connFd = -1
  longer : ∀ fd, (w.files fd).bytes.length ≤ (t.files fd).bytes.length

namespace Frame

variable {i : Nat} {w t u : World}

theorem trans (first : Frame i w t) (second : Frame i t u) : Frame i w u where
  others k other := (second.others k other).trans (first.others k other)
  own := by
    rcases second.own with same | gone
    · rw [same]
      exact first.own
    · exact .inr gone
  longer fd := Nat.le_trans (first.longer fd) (second.longer fd)

/-- Only requests and files matter. -/
theorem of_same (requests : t.requestP = w.requestP) (files : t.files = w.files) : Frame i w t where
  others k _ := by rw [requests]
  own := .inl (by rw [requests])
  longer fd := by rw [files]

theorem of_settle (same : t.settle = w.settle) : Frame i w t where
  others k _ := by rw [Tables.requestP_of_settle same]
  own := .inl (by rw [Tables.requestP_of_settle same])
  longer fd := by rw [Tables.bytes_of_settle same]

end Frame

/-- A stored byte makes a file no shorter. -/
theorem TrainFile.length_write (f : TrainFile) (c : Char) :
    f.bytes.length ≤ (f.write c).bytes.length := by
  unfold write
  dsimp only
  split
  · rw [List.length_set]
  · rw [List.length_append, List.length_append]
    omega

namespace World

variable (cfg : Config) (env : Env) (w : World) (i : Nat)

theorem send_frame (text : List Char) : Frame i w (w.send i text) := .of_same rfl rfl

theorem setRecord_frame (k : Nat) (r : Record) : Frame i w (w.setRecord k r) := .of_same rfl rfl

theorem closeConn_frame : Frame i w (w.closeConn i) where
  others k other := by simp [closeConn, setRequest, setRecord, other]
  own := .inr (by simp [closeConn, setRequest, freeRequest])
  longer _ := Nat.le_refl _

/-- The buffer or the status of the connection changes. -/
theorem setRequest_frame {q : Request} (conn : q.connFd = (w.requestP i).connFd) :
    Frame i w (w.setRequest i q) where
  others k other := by simp [setRequest, other]
  own := .inl (by simp [setRequest, conn])
  longer _ := Nat.le_refl _

theorem setStatus_frame (status : Status) : Frame i w (w.setStatus i status) :=
  setRequest_frame w i rfl

theorem setFile_frame {fd : Int} {f : TrainFile}
    (longer : (w.files fd).bytes.length ≤ f.bytes.length) : Frame i w (w.setFile fd f) where
  others _ _ := rfl
  own := .inl rfl
  longer fd' := by
    by_cases same : fd' = fd
    · subst same
      simpa [setFile] using longer
    · simp [setFile, same]

theorem storeCell_frame (trainFd index : Int) (c : Char) :
    Frame i w (w.storeCell cfg trainFd index c) := by
  have sought : Frame i w (w.lseek cfg trainFd (seatOffset index) false).1 :=
    .of_settle (lseek_settle cfg w _ _ _)
  unfold storeCell
  dsimp only
  split
  · exact sought.trans (.of_same rfl rfl)
  · have locked := sought.trans (.of_settle (setLock_settle cfg _ trainFd true))
    refine Frame.trans ?_ (.of_settle (lseek_settle cfg _ trainFd 0 false))
    refine Frame.trans ?_ (.of_settle (setLock_settle cfg _ trainFd false))
    exact locked.trans (setFile_frame _ i (TrainFile.length_write _ c))

theorem setSeatStat_frame (index : Int) (seat : Seat) :
    Frame i w (w.setSeatStat cfg i index seat) := by
  unfold setSeatStat
  dsimp only
  split <;> exact .of_same rfl rfl

/-- The record entry and the cell of a seat change together. -/
theorem mark_frame (index trainFd change : Int) (seat : Seat) (c : Char) :
    Frame i w
      (((w.setSeatStat cfg i index seat).addChosen i change).storeCell cfg trainFd index c) := by
  refine Frame.trans ?_ (storeCell_frame cfg _ i trainFd index c)
  exact (setSeatStat_frame cfg w i index seat).trans (.of_same rfl rfl)

theorem take_frame (bookNum trainFd : Int) : Frame i w (w.take cfg i bookNum trainFd) := by
  unfold take
  dsimp only
  split
  · exact setSeatStat_frame cfg w i _ _
  have marked := mark_frame cfg w i (bookNum - 1) trainFd 1 .CHOSEN '2'
  split
  · exact marked
  · exact marked.trans (.of_same rfl rfl)

theorem cancel_frame (bookNum trainFd : Int) : Frame i w (w.cancel cfg i bookNum trainFd) := by
  unfold cancel
  dsimp only
  split
  · exact setSeatStat_frame cfg w i _ _
  have marked := mark_frame cfg w i (bookNum - 1) trainFd (-1) .UNKNOWN '0'
  split
  · exact marked
  · exact marked.trans (.of_same rfl rfl)

theorem checkCurr_frame (call : Nat) (checkNum : Int) :
    Frame i w (w.checkCurr cfg env call i checkNum).1 :=
  .of_settle (checkCurr_settle cfg env w i call checkNum)

theorem choose_frame (bookNum trainFd : Int) :
    Frame i w (w.choose cfg env i bookNum trainFd) := by
  have first := checkCurr_frame cfg env w i 0 bookNum
  unfold choose
  split
  · rename_i t found
    rw [found] at first
    exact first
  rename_i t result found
  rw [found] at first
  split
  · exact first.trans (take_frame cfg t i bookNum trainFd)
  have second := first.trans (checkCurr_frame cfg env t i 1 bookNum)
  split
  · rename_i t' found'
    rw [found'] at second
    exact second
  rename_i t' result' found'
  rw [found'] at second
  split
  · exact second.trans (.of_same rfl rfl)
  have third := second.trans (checkCurr_frame cfg env t' i 2 bookNum)
  split
  · rename_i t'' found''
    rw [found''] at third
    exact third
  rename_i t'' result'' found''
  rw [found''] at third
  split
  · exact third.trans (.of_same rfl rfl)
  · exact third.trans (closeConn_frame t'' i)

theorem addORcancel_frame (seatINP : Int) : Frame i w (w.addORcancel cfg i seatINP).1 := by
  unfold addORcancel
  dsimp only
  split
  · exact .of_same rfl rfl
  · split <;> exact .of_same rfl rfl

theorem handleSeat_frame : Frame i w (w.handleSeat cfg env i) := by
  have first := addORcancel_frame cfg w i (atoi (w.requestP i).buf)
  unfold handleSeat
  dsimp only
  split
  · rename_i t found
    rw [found] at first
    exact first
  rename_i t result found
  rw [found] at first
  split
  · split
    · exact first.trans ((send_frame t i _).trans (closeConn_frame _ i))
    · exact first.trans (choose_frame cfg env t i _ _)
  have second := first.trans (addORcancel_frame cfg t i (atoi (w.requestP i).buf))
  split
  · rename_i t' found'
    rw [found'] at second
    exact second
  rename_i t' result' found'
  rw [found'] at second
  split
  · exact second.trans (cancel_frame cfg t' i _ _)
  · exact second.trans (send_frame t' i _)

theorem payStep_frame (trainFd : Int) (k : Nat) : Frame i w (payStep cfg i trainFd w k) := by
  unfold payStep
  split
  · exact .of_same rfl rfl
  dsimp only
  split
  · refine Frame.trans ?_ (storeCell_frame cfg _ i trainFd k '1')
    refine Frame.trans ?_ (setRecord_frame _ i i _)
    exact (setRecord_frame w i i _).trans (setStatus_frame _ i .BOOKED)
  · exact .of_same rfl rfl

theorem payLoop_frame (trainFd : Int) (seats : List Nat) :
    Frame i w (seats.foldl (payStep cfg i trainFd) w) := by
  induction seats generalizing w with
  | nil => exact .of_same rfl rfl
  | cons k rest ih => exact (payStep_frame cfg w i trainFd k).trans (ih _)

theorem pay_frame : Frame i w (w.pay cfg i) := by
  unfold pay
  split
  · exact .of_same rfl rfl
  dsimp only
  have sought : Frame i w (w.lseek cfg (w.recordP i).trainFd 0 false).1 :=
    .of_settle (lseek_settle cfg w _ _ _)
  have paid := sought.trans (payLoop_frame cfg _ i (w.recordP i).trainFd (List.range SEAT_NUM))
  generalize (List.range SEAT_NUM).foldl (payStep cfg i (w.recordP i).trainFd)
    (w.lseek cfg (w.recordP i).trainFd 0 false).1 = behind at paid
  split
  · exact paid
  · exact paid.trans (.of_same rfl rfl)

theorem occupied_frame (call : Nat) (fd : Int) : Frame i w (w.occupied cfg env call fd).1 :=
  .of_settle (occupied_settle cfg env w call fd)

theorem handleShift_frame : Frame i w (w.handleShift cfg env i) := by
  unfold handleShift
  dsimp only
  split
  · exact (send_frame w i _).trans (closeConn_frame _ i)
  have logged : Frame i w (w.log (.train (atoi (w.requestP w.connFd).buf - TRAIN_ID_START))) :=
    .of_same rfl rfl
  split
  · exact logged.trans (.of_same rfl rfl)
  rename_i fd _
  have first := logged.trans (occupied_frame cfg env _ i 0 fd)
  split
  · exact first.trans (.of_same rfl rfl)
  have second := first.trans (occupied_frame cfg env _ i 1 fd)
  split
  · exact (second.trans (setRecord_frame _ i i _)).trans
      ((setStatus_frame _ i .SEAT).trans (.of_same rfl rfl))
  have third := second.trans (occupied_frame cfg env _ i 2 fd)
  split
  · exact third.trans (closeConn_frame _ i)
  · exact third

theorem handleBooked_frame : Frame i w (w.handleBooked i) := by
  unfold handleBooked
  split
  · exact closeConn_frame w i
  split
  · exact (setStatus_frame w i .SEAT).trans (.of_same rfl rfl)
  · exact (send_frame w i _).trans (closeConn_frame _ i)

theorem handleLine_frame : Frame i w (w.handleLine cfg env i) := by
  unfold handleLine
  split
  · exact (send_frame w i _).trans (closeConn_frame _ i)
  split
  · exact handleShift_frame cfg env w i
  · exact handleBooked_frame w i
  · split
    · exact pay_frame cfg w i
    · exact handleSeat_frame cfg env w i

end World

/-! ## Every run -/

/-- Every slot that is in use is that of its descriptor, and every seat has a byte. -/
structure Tables.Framed (cfg : Config) (t : Tables) : Prop where
  slots : ∀ k, (t.requestP k).connFd = -1 ∨ (t.requestP k).connFd = k
  sized : ∀ j, 2 * SEAT_NUM ≤ (t.files (cfg.trains j)).bytes.length + 1

/-- The train files have a byte for every seat. -/
def Sized (disk : Fin TRAIN_NUM → List Char) : Prop :=
  ∀ j, 2 * SEAT_NUM ≤ (disk j).length + 1

theorem freeTrain_sized : Sized fun _ => freeTrain := by
  have length : freeTrain.length = 80 := by decide +kernel
  intro j
  change 80 ≤ freeTrain.length + 1
  omega

theorem Frame.framed {cfg : Config} {i : Nat} {w t : World} (frame : Frame i w t)
    (framed : w.Framed cfg) : t.Framed cfg where
  slots k := by
    by_cases same : k = i
    · subst same
      rcases frame.own with kept | gone
      · rw [kept]
        exact framed.slots k
      · exact .inl gone
    · rw [frame.others k same]
      exact framed.slots k
  sized j := by
    have longer := frame.longer (cfg.trains j)
    have before := framed.sized j
    omega

variable {cfg : Config} {heap : Nat → List Char} {disk : Fin TRAIN_NUM → List Char}

theorem World.step_framed {w t : World} {action : Action} (framed : w.Framed cfg)
    (transition : w.step cfg action = some t) : t.Framed cfg := by
  obtain ⟨_, stepped⟩ := World.step_cases transition
  cases stepped with
  | accept free received continues =>
    rename_i fd
    refine ⟨fun k => ?_, framed.sized⟩
    by_cases same : k = fd
    · simp [World.acceptConn, World.send, World.setRequest, same]
    · simpa [World.acceptConn, World.send, World.setRequest, same] using framed.slots k
  | close live received ends => exact (World.closeConn_frame w _).framed framed
  | line live received ends fine =>
    rename_i i text env
    have stored : Frame i w (w.store i text) := World.setRequest_frame w i rfl
    exact (stored.trans (World.handleLine_frame cfg env _ i)).framed framed

theorem framed_reached (sized : Sized disk) {guard : World → Action → Prop} {w : World}
    (reached : (machine cfg heap disk).Reach guard w) : w.Framed cfg := by
  apply reached.invariant (fun w => w.Framed cfg)
  · rintro w rfl
    refine ⟨fun k => ?_, fun j => ?_⟩
    · by_cases same : k = cfg.listenFd <;> simp [World.initServer, same]
    · have found : ((List.finRange TRAIN_NUM).find? fun j' =>
          decide ((cfg.trains j' : Int) = cfg.trains j)) = some j := cfg.trainOf_trains j
      simp only [World.initServer]
      rw [found]
      exact sized j
  · intro w action t _ framed _ transition
    exact World.step_framed framed transition

end NTUSP.Server
