import NTUSP.Server.Office
import NTUSP.Server.Payment

/-!
# The tables record the office

The state of a slot says at which desk its client stands. The records and the bytes of the train
files say whose each seat is: a byte alone does not tell a chosen seat from a locked one, nor a
paid seat from a sold one, but no record holds a seat that is locked or sold. Every operation on
the tables is one of the office.
-/

namespace NTUSP.Server

open NTUSP.Library CString

/-- The byte of a seat. -/
def Claim.byte : Claim → Char
  | free => '0'
  | chosen _ => '2'
  | paid _ => '1'
  | locked => '2'
  | sold => '1'

/-- Connection `i` is at the desk. -/
def Desk.Fits (cfg : Config) (t : Tables) (i : Nat) : Desk → Prop
  | away => (t.requestP i).status = .INVALID
  | shift => (t.requestP i).status = .SHIFT
  | seats shown train =>
      (t.requestP i).status = .SEAT ∧ (t.recordP i).shiftId = shown ∧ t.On cfg i train
  | booked shown train =>
      (t.requestP i).status = .BOOKED ∧ (t.recordP i).shiftId = shown ∧ t.On cfg i train

namespace Tables

/-- The tables and the train files record the office. -/
structure Records (cfg : Config) (t : Tables) (o : Office) : Prop where
  desk : ∀ i, (o.desk i).Fits cfg t i
  chosen : ∀ i cell, o.claim cell = .chosen i ↔
    t.On cfg i cell.1 ∧ (t.recordP i).seatStat cell.2 = .CHOSEN
  paid : ∀ i cell, o.claim cell = .paid i ↔
    t.On cfg i cell.1 ∧ (t.recordP i).seatStat cell.2 = .PAID
  byte : ∀ cell, t.seatByte cfg cell.1 cell.2 = some (o.claim cell).byte

variable {cfg : Config} {t u : Tables} {o o' : Office} {i k : Nat} {j : Fin TRAIN_NUM}

/-- Only states, records and bytes are recorded. -/
theorem Records.congr (records : t.Records cfg o)
    (status : ∀ i, (u.requestP i).status = (t.requestP i).status) (same : u.recordP = t.recordP)
    (bytes : ∀ fd, (u.files fd).bytes = (t.files fd).bytes) : u.Records cfg o := by
  have on : ∀ i j, u.On cfg i j ↔ t.On cfg i j := by
    intro i j
    unfold On
    rw [same]
  refine ⟨fun i => ?_, fun i cell => ?_, fun i cell => ?_, fun cell => ?_⟩
  · have fits := records.desk i
    cases desk : o.desk i with
    | away =>
      rw [desk] at fits
      exact (status i).trans fits
    | shift =>
      rw [desk] at fits
      exact (status i).trans fits
    | seats shown train =>
      rw [desk] at fits
      exact ⟨(status i).trans fits.1, by rw [same]; exact fits.2.1, (on i train).mpr fits.2.2⟩
    | booked shown train =>
      rw [desk] at fits
      exact ⟨(status i).trans fits.1, by rw [same]; exact fits.2.1, (on i train).mpr fits.2.2⟩
  · rw [on, same]
    exact records.chosen i cell
  · rw [on, same]
    exact records.paid i cell
  · unfold seatByte TrainFile.cell
    rw [bytes]
    exact records.byte cell

theorem Records.of_settle (records : t.Records cfg o) (same : u.settle = t.settle) :
    u.Records cfg o :=
  records.congr (fun i => by rw [requestP_of_settle same]) (recordP_of_settle same)
    fun fd => bytes_of_settle same fd

theorem Records.store (records : t.Records cfg o) (i : Nat) (text : List Char) :
    (t.store i text).Records cfg o := by
  apply records.congr (u := t.store i text) _ rfl fun _ => rfl
  intro k
  by_cases same : k = i <;> simp [Tables.store, setRequest, same]

/-- Only connection `i` and its client change. -/
theorem Records.slot (records : t.Records cfg o) (i : Nat) (fits : (o'.desk i).Fits cfg u i)
    (desks : ∀ k, k ≠ i → o'.desk k = o.desk k)
    (others : ∀ k, k ≠ i → u.requestP k = t.requestP k ∧ u.recordP k = t.recordP k)
    (chosen : ∀ cell, o'.claim cell = .chosen i ↔
      u.On cfg i cell.1 ∧ (u.recordP i).seatStat cell.2 = .CHOSEN)
    (paid : ∀ cell, o'.claim cell = .paid i ↔
      u.On cfg i cell.1 ∧ (u.recordP i).seatStat cell.2 = .PAID)
    (otherClaims : ∀ k cell, k ≠ i → (o'.claim cell = .chosen k ↔ o.claim cell = .chosen k) ∧
      (o'.claim cell = .paid k ↔ o.claim cell = .paid k))
    (byte : ∀ cell, u.seatByte cfg cell.1 cell.2 = some (o'.claim cell).byte) :
    u.Records cfg o' := by
  refine ⟨fun k => ?_, fun k cell => ?_, fun k cell => ?_, byte⟩
  · by_cases same : k = i
    · rw [same]
      exact fits
    · obtain ⟨request, record⟩ := others k same
      have before := records.desk k
      rw [desks k same]
      unfold Desk.Fits On at before ⊢
      rw [request, record]
      exact before
  · by_cases same : k = i
    · rw [same]
      exact chosen cell
    · rw [(otherClaims k cell same).1, records.chosen]
      unfold On
      rw [(others k same).2]
  · by_cases same : k = i
    · rw [same]
      exact paid cell
    · rw [(otherClaims k cell same).2, records.paid]
      unfold On
      rw [(others k same).2]

/-- A client sits down at another desk with the same seats. -/
theorem Records.sit (records : t.Records cfg o) (i : Nat) {desk : Desk} (fits : desk.Fits cfg u i)
    (others : ∀ k, k ≠ i → u.requestP k = t.requestP k ∧ u.recordP k = t.recordP k)
    (seats : ∀ j k, (u.On cfg i j ∧ (u.recordP i).seatStat k = .CHOSEN ↔
        t.On cfg i j ∧ (t.recordP i).seatStat k = .CHOSEN) ∧
      (u.On cfg i j ∧ (u.recordP i).seatStat k = .PAID ↔
        t.On cfg i j ∧ (t.recordP i).seatStat k = .PAID))
    (bytes : ∀ j, (u.files (cfg.trains j)).bytes = (t.files (cfg.trains j)).bytes) :
    u.Records cfg (o.sit i desk) := by
  apply records.slot i
  · rw [Office.sit]
    simpa using fits
  · intro k other
    exact Function.update_of_ne other _ _
  · exact others
  · intro cell
    exact (records.chosen i cell).trans (seats cell.1 cell.2).1.symm
  · intro cell
    exact (records.paid i cell).trans (seats cell.1 cell.2).2.symm
  · exact fun _ _ _ => ⟨.rfl, .rfl⟩
  · intro cell
    unfold seatByte TrainFile.cell
    rw [bytes]
    exact records.byte cell

/-! ## What the operations on the tables record -/

theorem Records.acceptConn (records : t.Records cfg o) (i : Nat) :
    (t.acceptConn i).Records cfg (o.sit i .shift) := by
  apply records.sit i
  · simp [Desk.Fits, Tables.acceptConn, setRequest]
  · intro k other
    simp [Tables.acceptConn, setRequest, other]
  · exact fun _ _ => ⟨.rfl, .rfl⟩
  · exact fun _ => rfl

theorem Records.again (records : t.Records cfg o) {shown : Int}
    (desk : o.desk i = .booked shown j) :
    (t.setStatus i .SEAT).Records cfg (o.sit i (.seats shown j)) := by
  obtain ⟨_, same, on⟩ : (Desk.booked shown j).Fits cfg t i := desk ▸ records.desk i
  apply records.sit i
  · exact ⟨by simp [Tables.setStatus, setRequest], same, on⟩
  · intro k other
    simp [Tables.setStatus, setRequest, other]
  · exact fun _ _ => ⟨.rfl, .rfl⟩
  · exact fun _ => rfl

theorem Records.bind (records : t.Records cfg o) (fresh : t.recordP i = initRecord)
    (shiftId : Int) : (t.bind i shiftId (cfg.trains j)).Records cfg (o.sit i (.seats shiftId j)) := by
  apply records.sit i
  · exact ⟨bind_status .., by simp, by simp [On]⟩
  · intro k other
    simp [Tables.bind, Tables.setStatus, setRequest, setRecord, other]
  · intro j' k
    simp [fresh, initRecord]
  · exact fun _ => rfl

/-- A client leaves its seats locked or sold. -/
theorem Records.closeConn (records : t.Records cfg o) (i : Nat) :
    (t.closeConn i).Records cfg (o.leave i) := by
  have record : (t.closeConn i).recordP i = initRecord := by
    simp [Tables.closeConn, setRequest, setRecord]
  apply records.slot i
  · simp [Office.leave, Desk.Fits, Tables.closeConn, setRequest, freeRequest]
  · intro k other
    exact Function.update_of_ne other _ _
  · intro k other
    simp [Tables.closeConn, setRequest, setRecord, other]
  · intro cell
    rw [record]
    exact iff_of_false (fun chosen => (Claim.without_eq_chosen.mp chosen).2 rfl) (by simp [initRecord])
  · intro cell
    rw [record]
    exact iff_of_false (fun paid => (Claim.without_eq_paid.mp paid).2 rfl) (by simp [initRecord])
  · intro k cell other
    exact ⟨Claim.without_eq_chosen.trans (and_iff_left other),
      Claim.without_eq_paid.trans (and_iff_left other)⟩
  · intro cell
    have same : ((o.claim cell).without i).byte = (o.claim cell).byte := by
      cases o.claim cell with
      | chosen client => by_cases leaves : client = i <;> simp [Claim.without, Claim.byte, leaves]
      | paid client => by_cases leaves : client = i <;> simp [Claim.without, Claim.byte, leaves]
      | free => rfl
      | locked => rfl
      | sold => rfl
    exact (records.byte cell).trans (congrArg some same.symm)

/-- A seat that is free or of client `i` changes hands between the two. -/
theorem Records.mark (records : t.Records cfg o) {seat : Fin SEAT_NUM} (on : t.On cfg i j)
    (own : o.claim (j, seat) = .free ∨ o.claim (j, seat) = .chosen i) {claim : Claim} {stat : Seat}
    (changes : (claim = .chosen i ∧ stat = .CHOSEN) ∨ (claim = .free ∧ stat = .UNKNOWN))
    (change : Int) :
    (t.mark i seat stat change (cfg.trains j) claim.byte).Records cfg (o.assign (j, seat) claim) := by
  have elsewhere : ∀ {cell : Cell}, t.On cfg i cell.1 → cell ≠ (j, seat) → (cell.2 : Nat) ≠ seat := by
    intro cell on' other same
    exact other (Prod.ext (cfg.distinct (Int.ofNat.inj (on'.symm.trans on))) (Fin.ext same))
  have seatStat : ∀ cell : Cell, t.On cfg i cell.1 →
      ((t.mark i seat stat change (cfg.trains j) claim.byte).recordP i).seatStat cell.2 =
        if cell = (j, seat) then stat else (t.recordP i).seatStat cell.2 := by
    intro cell on'
    rw [mark_seatStat]
    by_cases here : cell = (j, seat)
    · simp [here]
    · simp [here, elsewhere on' here]
  apply records.slot i
  · have fits := records.desk i
    rw [Office.assign]
    cases desk : o.desk i with
    | away =>
      rw [desk] at fits
      exact fits
    | shift =>
      rw [desk] at fits
      exact fits
    | seats shown train =>
      rw [desk] at fits
      exact ⟨fits.1, by simpa [Tables.mark, setRecord, Record.setSeat] using fits.2.1,
        (mark_on ..).mpr fits.2.2⟩
    | booked shown train =>
      rw [desk] at fits
      exact ⟨fits.1, by simpa [Tables.mark, setRecord, Record.setSeat] using fits.2.1,
        (mark_on ..).mpr fits.2.2⟩
  · exact fun _ _ => rfl
  · intro k other
    simp [Tables.mark, setRecord, other]
  · intro cell
    rw [mark_on]
    by_cases here : cell = (j, seat)
    · subst here
      rw [seatStat _ on, if_pos rfl]
      rcases changes with ⟨rfl, rfl⟩ | ⟨rfl, rfl⟩
      · simp [Office.assign, on]
      · simp [Office.assign]
    · have before := records.chosen i cell
      have same : (o.assign (j, seat) claim).claim cell = o.claim cell :=
        Function.update_of_ne here _ _
      rw [same, before]
      refine and_congr_right fun on' => ?_
      rw [seatStat cell on', if_neg here]
  · intro cell
    rw [mark_on]
    by_cases here : cell = (j, seat)
    · subst here
      rw [seatStat _ on, if_pos rfl]
      rcases changes with ⟨rfl, rfl⟩ | ⟨rfl, rfl⟩
      · simp [Office.assign]
      · simp [Office.assign]
    · have before := records.paid i cell
      have same : (o.assign (j, seat) claim).claim cell = o.claim cell :=
        Function.update_of_ne here _ _
      rw [same, before]
      refine and_congr_right fun on' => ?_
      rw [seatStat cell on', if_neg here]
  · intro k cell other
    have frame := (Office.Same.refl k o).assign other own
      (changes.symm.imp (fun both => both.1) fun both => both.1)
    exact ⟨frame.chosen cell, frame.paid cell⟩
  · intro cell
    rw [mark_seatByte (records.byte (j, seat))]
    by_cases here : cell = (j, seat)
    · subst here
      simp [Office.assign]
    · have apart : ¬ (cell.1 = j ∧ (cell.2 : Nat) = seat) := by
        rintro ⟨train, same⟩
        exact here (Prod.ext train (Fin.ext same))
      rw [if_neg apart, records.byte]
      simp [Office.assign, here]

theorem Records.pay (records : t.Records cfg o) {shown : Int} (desk : o.desk i = .seats shown j)
    (some : ∃ seat, o.claim (j, seat) = .chosen i) :
    (t.payTurns i (cfg.trains j) SEAT_NUM).Records cfg ((o.sit i (.booked shown j)).collect i) := by
  obtain ⟨_, same, on⟩ : (Desk.seats shown j).Fits cfg t i := desk ▸ records.desk i
  obtain ⟨paid, chosenPaid⟩ := some
  have chosen := ((records.chosen i _).mp chosenPaid).2
  have inside : ∀ k < SEAT_NUM, (t.recordP i).seatStat k = .CHOSEN →
      2 * k < (t.files (cfg.trains j)).bytes.length := fun k bound _ =>
    (List.getElem?_eq_some_iff.mp (records.byte (j, ⟨k, bound⟩))).1
  have train : (t.payTurns i (cfg.trains j) SEAT_NUM).On cfg i = t.On cfg i := by
    funext j'
    unfold On
    rw [payTurns_same.2]
  apply records.slot i
  · rw [Office.collect, Office.sit]
    simp only [Function.update_self]
    refine ⟨payTurns_status chosen paid.isLt, payTurns_shiftId.trans same, ?_⟩
    rw [train]
    exact on
  · intro k other
    exact Function.update_of_ne other _ _
  · exact fun k other => payTurns_others other
  · intro cell
    refine iff_of_false (fun held => (Claim.paying_eq_chosen.mp held).2 rfl) ?_
    exact fun held => payTurns_unchosen cell.2.isLt held.2
  · intro cell
    refine Claim.paying_eq_paid.trans ?_
    rw [train, payTurns_seatStat]
    change o.claim cell = _ ∨ _ ↔ _
    rw [records.paid]
    change _ ∨ (o.claim cell = _ ∧ _) ↔ _
    rw [records.chosen]
    by_cases held : (t.recordP i).seatStat cell.2 = .CHOSEN
    · simp [held, cell.2.isLt]
    · simp [held]
  · intro k cell other
    exact ⟨Claim.paying_eq_chosen.trans (and_iff_left other),
      Claim.paying_eq_paid.trans (or_iff_left fun both => other both.2)⟩
  · intro cell
    change _ = Option.some ((o.claim cell).paying i).byte
    by_cases held : o.claim cell = .chosen i
    · obtain ⟨on', held'⟩ := (records.chosen i cell).mp held
      have here : cell.1 = j := cfg.distinct (Int.ofNat.inj (on'.symm.trans on))
      have sold := payTurns_sold (i := i) inside cell.2.isLt held'
      rw [here]
      unfold seatByte TrainFile.cell
      rw [sold]
      simp [Claim.paying, held, Claim.byte]
    · have kept : (o.claim cell).paying i = o.claim cell := if_neg held
      rw [kept, ← records.byte cell]
      unfold seatByte TrainFile.cell
      by_cases here : cell.1 = j
      · rw [here]
        rcases (payTurns_bytes inside).2 (2 * cell.2) with same | ⟨k, bound, place, now, _⟩
        · exact same
        · have seat : (cell.2 : Nat) = k := by omega
          rw [← seat] at now
          exact absurd ((records.chosen i cell).mpr ⟨by rw [here]; exact on, now⟩) held
      · rw [payTurns_elsewhere (trains_ne here)]

/-- The numbers of the seats of a record that are so claimed. -/
theorem numbers_eq {r : Record} {claim : Claim} {status : Seat}
    (same : ∀ seat : Fin SEAT_NUM, o.claim (j, seat) = claim ↔ r.seatStat seat = status) :
    o.numbers j claim = r.seatsBelow status SEAT_NUM := by
  unfold Office.numbers Record.seatsBelow
  rw [← List.map_coe_finRange_eq_range, List.filter_map, List.map_map]
  simp only [Function.comp_def, same]

/-- The server prints the booking info of the office. -/
theorem Records.info (records : t.Records cfg o) {shown : Int}
    (same : (t.recordP i).shiftId = shown) (on : t.On cfg i j) :
    printTrainInfo (t.recordP i) = o.info i shown j := by
  have chosen : o.numbers j (.chosen i) = (t.recordP i).seatsBelow .CHOSEN SEAT_NUM :=
    numbers_eq fun seat => (records.chosen i (j, seat)).trans (and_iff_right on)
  have paid : o.numbers j (.paid i) = (t.recordP i).seatsBelow .PAID SEAT_NUM :=
    numbers_eq fun seat => (records.paid i (j, seat)).trans (and_iff_right on)
  unfold printTrainInfo Office.info bookingInfo
  rw [seatList_eq_listBelow, seatList_eq_listBelow, chosen, paid, same]
  rfl

/-! ## The desk of a connection -/

theorem On.unique {j' : Fin TRAIN_NUM} (on : t.On cfg i j) (on' : t.On cfg i j') : j' = j :=
  cfg.distinct (Int.ofNat.inj (on'.symm.trans on))

theorem Records.away (records : t.Records cfg o) :
    o.desk i = .away ↔ (t.requestP i).status = .INVALID := by
  have fits := records.desk i
  cases desk : o.desk i with
  | away =>
    rw [desk] at fits
    exact iff_of_true rfl fits
  | shift =>
    rw [desk] at fits
    exact iff_of_false (by simp) (by rw [fits]; decide)
  | seats shown train =>
    rw [desk] at fits
    exact iff_of_false (by simp) (by rw [fits.1]; decide)
  | booked shown train =>
    rw [desk] at fits
    exact iff_of_false (by simp) (by rw [fits.1]; decide)

theorem Records.shift (records : t.Records cfg o) (status : (t.requestP i).status = .SHIFT) :
    o.desk i = .shift := by
  have fits := records.desk i
  cases desk : o.desk i with
  | shift => rfl
  | away =>
    rw [desk] at fits
    exact absurd (fits.symm.trans status) (by decide)
  | seats shown train =>
    rw [desk] at fits
    exact absurd (fits.1.symm.trans status) (by decide)
  | booked shown train =>
    rw [desk] at fits
    exact absurd (fits.1.symm.trans status) (by decide)

theorem Records.seats (records : t.Records cfg o) (status : (t.requestP i).status = .SEAT)
    (on : t.On cfg i j) : o.desk i = .seats (t.recordP i).shiftId j := by
  have fits := records.desk i
  cases desk : o.desk i with
  | seats shown train =>
    rw [desk] at fits
    rw [← fits.2.1, on.unique fits.2.2]
  | away =>
    rw [desk] at fits
    exact absurd (fits.symm.trans status) (by decide)
  | shift =>
    rw [desk] at fits
    exact absurd (fits.symm.trans status) (by decide)
  | booked shown train =>
    rw [desk] at fits
    exact absurd (fits.1.symm.trans status) (by decide)

theorem Records.booked (records : t.Records cfg o) (status : (t.requestP i).status = .BOOKED)
    (on : t.On cfg i j) : o.desk i = .booked (t.recordP i).shiftId j := by
  have fits := records.desk i
  cases desk : o.desk i with
  | booked shown train =>
    rw [desk] at fits
    rw [← fits.2.1, on.unique fits.2.2]
  | away =>
    rw [desk] at fits
    exact absurd (fits.symm.trans status) (by decide)
  | shift =>
    rw [desk] at fits
    exact absurd (fits.symm.trans status) (by decide)
  | seats shown train =>
    rw [desk] at fits
    exact absurd (fits.1.symm.trans status) (by decide)

end Tables

end NTUSP.Server
