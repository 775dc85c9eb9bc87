import NTUSP.Server.Requests

/-!
# Who holds a seat

A seat that a record holds is held by that record alone, and its byte in the train file
says so. The invariant adds that every seat has a byte `checkCurr` can read, so no
connection ends because its file is unreadable. It does not say that a `'2'` has a
holder.
-/

namespace NTUSP.Server

open NTUSP.Library CString

/-- The byte of a seat with this status. -/
def Seat.byte : Seat → Char
  | .UNKNOWN => '0'
  | .CHOSEN => '2'
  | .PAID => '1'

theorem Seat.byte_ne_zero {seat : Seat} (held : seat ≠ .UNKNOWN) : seat.byte ≠ '0' := by
  cases seat with
  | UNKNOWN => exact absurd rfl held
  | CHOSEN => decide
  | PAID => decide

namespace Tables

/-- The byte of seat `k` of train `j`. -/
def seatByte (cfg : Config) (t : Tables) (j : Fin TRAIN_NUM) (k : Nat) : Option Char :=
  (t.files (cfg.trains j)).cell k

/-- Record `i` is about train `j`. -/
def On (cfg : Config) (t : Tables) (i : Nat) (j : Fin TRAIN_NUM) : Prop :=
  (t.recordP i).trainFd = cfg.trains j

/-- The seats of the records and of the train files. -/
structure Seated (cfg : Config) (t : Tables) : Prop where
  readable : ∀ j k, k < SEAT_NUM → ∃ seat : Seat, t.seatByte cfg j k = some seat.byte
  held : ∀ i j k, k < SEAT_NUM → t.On cfg i j → (t.recordP i).seatStat k ≠ .UNKNOWN →
    t.seatByte cfg j k = some ((t.recordP i).seatStat k).byte
  alone : ∀ i i' j k, k < SEAT_NUM → t.On cfg i j → t.On cfg i' j →
    (t.recordP i).seatStat k ≠ .UNKNOWN → (t.recordP i').seatStat k ≠ .UNKNOWN → i = i'

end Tables

/-- Storing a byte the file has leaves the other bytes alone. -/
theorem TrainFile.cell_put {f : TrainFile} {k : Nat} {old : Char} (known : f.cell k = some old)
    (c : Char) (k' : Nat) : (f.put k c).cell k' = if k' = k then some c else f.cell k' := by
  unfold TrainFile.cell at known
  have inside : 2 * k < f.bytes.length := (List.getElem?_eq_some_iff.mp known).1
  by_cases same : k' = k
  · simp [TrainFile.put, TrainFile.write, TrainFile.cell, same, inside]
  · have apart : 2 * k ≠ 2 * k' := by omega
    simp [TrainFile.put, TrainFile.write, TrainFile.cell, same, inside,
      List.getElem?_set_ne apart]

namespace Tables

variable {cfg : Config} {t u : Tables} {action : Action} {i k : Nat} {j : Fin TRAIN_NUM}
  {seat : Seat} {change : Int}

theorem mark_on (i' : Nat) (j' : Fin TRAIN_NUM) (fd : Int) (c : Char) :
    (t.mark i k seat change fd c).On cfg i' j' ↔ t.On cfg i' j' := by
  by_cases same : i' = i <;> simp [On, mark, setRecord, Record.setSeat, same]

theorem mark_seatStat (i' k' : Nat) (fd : Int) (c : Char) :
    ((t.mark i k seat change fd c).recordP i').seatStat k' =
      if i' = i ∧ k' = k then seat else (t.recordP i').seatStat k' := by
  by_cases same : i' = i
  · by_cases here : k' = k <;> simp [mark, setRecord, Record.setSeat, same, here]
  · simp [mark, setRecord, same]

theorem mark_seatByte {old : Char} (known : t.seatByte cfg j k = some old) (j' : Fin TRAIN_NUM)
    (k' : Nat) (c : Char) :
    (t.mark i k seat change (cfg.trains j) c).seatByte cfg j' k' =
      if j' = j ∧ k' = k then some c else t.seatByte cfg j' k' := by
  by_cases same : j' = j
  · subst same
    unfold seatByte at known
    simp [seatByte, mark, TrainFile.cell_put known]
  · have other : (cfg.trains j' : Int) ≠ cfg.trains j :=
      fun equal => same (cfg.distinct (Int.ofNat.inj equal))
    simp [seatByte, mark, same, other]

namespace Seated

/-- Only the records and the files matter. -/
theorem of_same (seated : t.Seated cfg) (records : u.recordP = t.recordP)
    (files : u.files = t.files) : u.Seated cfg := by
  obtain ⟨readable, held, alone⟩ := seated
  refine ⟨?_, ?_, ?_⟩ <;> simp only [seatByte, On, records, files]
  · exact readable
  · exact held
  · exact alone

/-- A change of one record to one that holds no seat. -/
theorem setRecord (seated : t.Seated cfg) {r : Record} (empty : ∀ k, r.seatStat k = .UNKNOWN) :
    (t.setRecord i r).Seated cfg := by
  have unused : ∀ i' k, ((t.setRecord i r).recordP i').seatStat k ≠ .UNKNOWN → i' ≠ i := by
    rintro i' k used rfl
    simp [Tables.setRecord, empty] at used
  have other : ∀ i', i' ≠ i → (t.setRecord i r).recordP i' = t.recordP i' := by
    intro i' different
    simp [Tables.setRecord, different]
  refine ⟨seated.readable, fun i' j k bound on used => ?_,
    fun i₁ i₂ j k bound on₁ on₂ used₁ used₂ => ?_⟩
  · have same := other i' (unused i' k used)
    unfold On at on
    rw [same] at on used ⊢
    exact seated.held i' j k bound on used
  · have same₁ := other i₁ (unused i₁ k used₁)
    have same₂ := other i₂ (unused i₂ k used₂)
    unfold On at on₁ on₂
    rw [same₁] at on₁ used₁
    rw [same₂] at on₂ used₂
    exact seated.alone i₁ i₂ j k bound on₁ on₂ used₁ used₂

/-- A seat that nobody else holds changes in the record and in the file alike. -/
theorem mark (seated : t.Seated cfg) (seat : Seat) (change : Int) (record : t.On cfg i j)
    (bound : k < SEAT_NUM)
    (others : ∀ i', i' ≠ i → t.On cfg i' j → (t.recordP i').seatStat k = .UNKNOWN) :
    (t.mark i k seat change (cfg.trains j) seat.byte).Seated cfg := by
  obtain ⟨old, known⟩ := seated.readable j k bound
  refine ⟨fun j' k' bound' => ?_, fun i' j' k' bound' on used => ?_,
    fun i₁ i₂ j' k' bound' on₁ on₂ used₁ used₂ => ?_⟩
  · rw [mark_seatByte known]
    split
    · exact ⟨seat, rfl⟩
    · exact seated.readable j' k' bound'
  · rw [mark_on] at on
    rw [mark_seatStat] at used ⊢
    rw [mark_seatByte known]
    by_cases mine : i' = i ∧ k' = k
    · obtain ⟨rfl, rfl⟩ := mine
      have same : j' = j := cfg.distinct (Int.ofNat.inj (on.symm.trans record))
      simp [same]
    · rw [if_neg mine] at used ⊢
      have elsewhere : ¬ (j' = j ∧ k' = k) := by
        rintro ⟨rfl, rfl⟩
        exact used (others i' (fun same => mine ⟨same, rfl⟩) on)
      rw [if_neg elsewhere]
      exact seated.held i' j' k' bound' on used
  · rw [mark_on] at on₁ on₂
    rw [mark_seatStat] at used₁ used₂
    have owner : ∀ i', t.On cfg i' j' → ¬ (i' = i ∧ k' = k) →
        (t.recordP i').seatStat k' ≠ .UNKNOWN → ¬ (j' = j ∧ k' = k) := by
      rintro i' on other used ⟨rfl, rfl⟩
      exact used (others i' (fun same => other ⟨same, rfl⟩) on)
    by_cases mine₁ : i₁ = i ∧ k' = k
    · by_cases mine₂ : i₂ = i ∧ k' = k
      · exact mine₁.1.trans mine₂.1.symm
      · rw [if_neg mine₂] at used₂
        rw [mine₁.1] at on₁
        have same : j' = j := cfg.distinct (Int.ofNat.inj (on₁.symm.trans record))
        exact absurd ⟨same, mine₁.2⟩ (owner i₂ on₂ mine₂ used₂)
    · rw [if_neg mine₁] at used₁
      by_cases mine₂ : i₂ = i ∧ k' = k
      · rw [mine₂.1] at on₂
        have same : j' = j := cfg.distinct (Int.ofNat.inj (on₂.symm.trans record))
        exact absurd ⟨same, mine₂.2⟩ (owner i₁ on₁ mine₁ used₁)
      · rw [if_neg mine₂] at used₂
        exact seated.alone i₁ i₂ j' k' bound' on₁ on₂ used₁ used₂

/-- Nobody else holds a chosen seat. -/
theorem others_of_chosen (seated : t.Seated cfg) (bound : k < SEAT_NUM) (record : t.On cfg i j)
    (chosen : (t.recordP i).seatStat k = .CHOSEN) :
    ∀ i', i' ≠ i → t.On cfg i' j → (t.recordP i').seatStat k = .UNKNOWN := by
  intro i' other on
  by_contra used
  have mine : (t.recordP i).seatStat k ≠ .UNKNOWN := by simp [chosen]
  exact other (seated.alone i' i j k bound on record used mine)

/-- A chosen seat is locked in the file of a train. -/
theorem locked_of_chosen (seated : t.Seated cfg) (sound : t.Sound cfg) (bound : k < SEAT_NUM)
    (chosen : (t.recordP i).seatStat k = .CHOSEN) :
    ∃ j, t.On cfg i j ∧ t.seatByte cfg j k = some '2' := by
  have used : t.recordP i ≠ initRecord := by
    intro fresh
    simp [fresh, initRecord] at chosen
  obtain ⟨j, record⟩ := sound.bound i (sound.status_of_record used)
  have byte := seated.held i j k bound record (by simp [chosen])
  rw [chosen] at byte
  exact ⟨j, record, byte⟩

/-- Nobody holds a seat whose byte is `'0'`. -/
theorem unknown_of_zero (seated : t.Seated cfg) (bound : k < SEAT_NUM)
    (zero : t.seatByte cfg j k = some '0') :
    ∀ i', t.On cfg i' j → (t.recordP i').seatStat k = .UNKNOWN := by
  intro i' on
  by_contra used
  have byte := (seated.held i' j k bound on used).symm.trans zero
  exact Seat.byte_ne_zero used (Option.some.inj byte)

/-- A seat `checkCurr` finds available has the byte `'0'`. -/
theorem zero_of_available (seated : t.Seated cfg) (bound : k < SEAT_NUM)
    (available : ∀ c, (t.files (cfg.trains j)).cell k = some c → c = '0') :
    t.seatByte cfg j k = some '0' := by
  obtain ⟨old, known⟩ := seated.readable j k bound
  rw [known, available _ known]

theorem effect (seated : t.Seated cfg) (sound : t.Sound cfg) (effect : Effect cfg t u) :
    u.Seated cfg := by
  cases effect with
  | again booked => exact seated.of_same rfl rfl
  | bind shift line looked room =>
    rename_i i j
    have empty : t.recordP i = initRecord := sound.fresh i (by simp [shift])
    exact (seated.setRecord (i := i) (by simp [empty, initRecord])).of_same rfl rfl
  | choose seat record bound other available =>
    have zero := seated.zero_of_available bound available
    exact seated.mark .CHOSEN 1 record bound
      fun i' _ => seated.unknown_of_zero bound zero i'
  | cancel seat record bound chosen =>
    exact seated.mark .UNKNOWN (-1) record bound
      (seated.others_of_chosen bound record chosen)
  | pay seat record bound chosen =>
    exact (seated.mark .PAID (-1) record bound
      (seated.others_of_chosen bound record chosen)).of_same rfl rfl

theorem effects (seated : t.Seated cfg) (sound : t.Sound cfg) (effects : Effects cfg t u) :
    u.Seated cfg := by
  suffices both : u.Sound cfg ∧ u.Seated cfg from both.2
  induction effects with
  | refl => exact ⟨sound, seated⟩
  | tail _ last ih => exact ⟨ih.1.effect last, ih.2.effect ih.1 last⟩

theorem not_unreadable (seated : t.Seated cfg) (bound : k < SEAT_NUM) :
    ¬ (t.files (cfg.trains j)).Unreadable k := by
  intro unreadable
  obtain ⟨seat, known⟩ := seated.readable j k bound
  obtain ⟨zero, one, two⟩ := unreadable _ known
  cases seat with
  | UNKNOWN => exact zero rfl
  | CHOSEN => exact two rfl
  | PAID => exact one rfl

theorem outcome (seated : t.Seated cfg) (sound : t.Sound cfg)
    (outcome : Outcome cfg t action u) : u.Seated cfg := by
  cases outcome with
  | accepted free continues => exact seated.of_same rfl rfl
  | ended live ends => exact (seated.setRecord (r := initRecord) fun _ => rfl).of_same rfl rfl
  | failed live bound unreadable => exact absurd unreadable (seated.not_unreadable bound)
  | served line continues effects =>
    exact (seated.of_same (u := t.store _ _) rfl rfl).effects (sound.store _ _) effects

end Seated

/-- Seat exclusivity: a seat in `CHOSEN` or `PAID` has one live record, whose entry agrees
with the train file. -/
structure Exclusive (cfg : Config) (t : Tables) : Prop where
  alone : ∀ i i' j k, k < SEAT_NUM → t.Live cfg i → t.Live cfg i' → t.On cfg i j → t.On cfg i' j →
    ((t.recordP i).seatStat k = .CHOSEN ∨ (t.recordP i).seatStat k = .PAID) →
    ((t.recordP i').seatStat k = .CHOSEN ∨ (t.recordP i').seatStat k = .PAID) → i = i'
  chosen : ∀ i j k, k < SEAT_NUM → t.Live cfg i → t.On cfg i j →
    (t.recordP i).seatStat k = .CHOSEN → t.seatByte cfg j k = some '2'
  paid : ∀ i j k, k < SEAT_NUM → t.Live cfg i → t.On cfg i j →
    (t.recordP i).seatStat k = .PAID → t.seatByte cfg j k = some '1'

theorem Seated.exclusive (seated : t.Seated cfg) : t.Exclusive cfg where
  alone i i' j k bound _ _ on on' used used' := by
    have held : ∀ seat : Seat, seat = .CHOSEN ∨ seat = .PAID → seat ≠ .UNKNOWN := by
      rintro seat (rfl | rfl) <;> decide
    exact seated.alone i i' j k bound on on' (held _ used) (held _ used')
  chosen i j k bound _ on chosen := by
    have byte := seated.held i j k bound on (by simp [chosen])
    rwa [chosen] at byte
  paid i j k bound _ on paid := by
    have byte := seated.held i j k bound on (by simp [paid])
    rwa [paid] at byte

end Tables

/-- A step whose calls succeed, whose seat line is in range and whose shift selection looks
up a train. -/
def withinBounds (w : World) (action : Action) : Prop :=
  seatsInRange w action ∧ w.OnLine Tables.TrainInRange action

instance (w : World) (action : Action) : Decidable (withinBounds w action) := by
  unfold withinBounds
  infer_instance

/-- The 40 seats are free or sold in each train file. -/
def Unlocked (disk : Fin TRAIN_NUM → List Char) : Prop :=
  ∀ j k, k < SEAT_NUM → (disk j)[2 * k]? = some '0' ∨ (disk j)[2 * k]? = some '1'

variable {cfg : Config} {heap : Nat → List Char} {disk : Fin TRAIN_NUM → List Char}

/-- `init_server` opens each train file on its own descriptor. -/
theorem initServer_seatByte (cfg : Config) (heap : Nat → List Char)
    (disk : Fin TRAIN_NUM → List Char) (j : Fin TRAIN_NUM) (k : Nat) :
    (World.initServer cfg heap disk).seatByte cfg j k = (disk j)[2 * k]? := by
  have found : ((List.finRange TRAIN_NUM).find? fun j' =>
      decide ((cfg.trains j' : Int) = cfg.trains j)) = some j := cfg.trainOf_trains j
  simp only [Tables.seatByte, World.initServer, TrainFile.cell]
  rw [found]
  rfl

theorem initServer_seated (unlocked : Unlocked disk) :
    (World.initServer cfg heap disk).Seated cfg := by
  refine ⟨fun j k bound => ?_, fun i j k _ _ used => absurd rfl used,
    fun i i' j k _ _ _ used => absurd rfl used⟩
  rw [initServer_seatByte]
  rcases unlocked j k bound with free | sold
  · exact ⟨.UNKNOWN, free⟩
  · exact ⟨.PAID, sold⟩

theorem seated_reached {w : World} (unlocked : Unlocked disk)
    (reached : (machine cfg heap disk).Reach seatsInRange w) : w.Seated cfg := by
  apply reached.invariant (fun w => w.Seated cfg)
  · rintro w rfl
    exact initServer_seated unlocked
  · intro w action t prior seated allowed transition
    have sound := sound_reached prior
    exact seated.outcome sound (World.step_outcome sound allowed.1 allowed.2 transition)

/-- From train files without a locked seat, no two clients ever hold the same seat, and the
files agree with the records. -/
theorem exclusive_of_withinBounds (unlocked : Unlocked disk) {w : World}
    (reached : (machine cfg heap disk).Reach withinBounds w) : w.Exclusive cfg :=
  (seated_reached unlocked (reached.mono fun _ _ allowed => allowed.1)).exclusive

/-! ## A small server -/

/-- The train files are open on 3 to 7, and the listening socket on 8. -/
def smallConfig : Config where
  maxfd := 16
  listenFd := 8
  trains j := 3 + j
  distinct _ _ same := Fin.ext (Nat.add_left_cancel same)

/-- A train file with 40 free seats. -/
def freeTrain : List Char := (List.replicate 10 "0 0 0 0\n".toList).flatten

theorem freeTrain_unlocked : Unlocked fun _ => freeTrain := by
  have free : ∀ k, k < SEAT_NUM → freeTrain[2 * k]? = some '0' := by decide +kernel
  exact fun _ k bound => .inl (free k bound)

/-- The server on free trains, with zeroed request buffers. -/
def smallServer : Machine World Action := machine smallConfig (fun _ => []) fun _ => freeTrain

def smallStart : World := World.initServer smallConfig (fun _ => []) fun _ => freeTrain

/-- Connection `i` sends a line. -/
def sends (i : Nat) (text : String) : Action := .recv i (text.toList ++ ['\n']) .quiet

/-- Two clients on one train: the first takes seat 3, which the second cannot, and the second
pays for seat 4. -/
theorem exclusive_two_clients :
    ∃ w, smallServer.Reach withinBounds w ∧ (w.recordP 9).seatStat 2 = .CHOSEN ∧
      (w.recordP 10).seatStat 3 = .PAID ∧ w.Exclusive smallConfig := by
  have ran : (smallServer.exec (fun w action => withinBounds w action) smallStart
      [.accept 9, .accept 10, sends 10 "902001", sends 9 "902001", sends 9 "3", sends 10 "3",
        sends 10 "4", sends 10 "pay"]).map
          (fun w => ((w.recordP 9).seatStat 2, (w.recordP 10).seatStat 3)) =
      some (.CHOSEN, .PAID) := by
    decide +kernel
  obtain ⟨w, reached, seats⟩ := Machine.Reach.of_ran rfl ran
  obtain ⟨first, second⟩ := Prod.mk.inj seats
  exact ⟨w, reached, first, second, exclusive_of_withinBounds freeTrain_unlocked reached⟩

end NTUSP.Server
