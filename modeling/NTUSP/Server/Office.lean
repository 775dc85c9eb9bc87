import NTUSP.Library.Refinement
import NTUSP.Server.BookingInfo
import NTUSP.Server.Shared

/-!
# The booking office

What the write server is for, without descriptors, buffers, records and bytes. A client stands
at a desk, every seat is claimed by nobody, by a client or for good, and the office answers each
line. What a client was told last is what it has: no other client changes it. Nothing here says
which train the office looks up for a shift selection, so it is part of the visit.
-/

namespace NTUSP.Server

open NTUSP.Library CString

/-- Whose a seat is. A client that leaves keeps what it has chosen locked and what it has paid
for sold. -/
inductive Claim where
  | free
  | chosen (client : Nat)
  | paid (client : Nat)
  | locked
  | sold
  deriving DecidableEq

namespace Claim

/-- Client `i` leaves. -/
def without (i : Nat) : Claim → Claim
  | chosen client => if client = i then locked else chosen client
  | paid client => if client = i then sold else paid client
  | other => other

/-- Client `i` pays. -/
def paying (i : Nat) (claim : Claim) : Claim := if claim = chosen i then paid i else claim

variable {claim : Claim} {i k : Nat}

theorem without_eq_chosen : claim.without k = .chosen i ↔ claim = .chosen i ∧ i ≠ k := by
  cases claim with
  | chosen client =>
    by_cases leaves : client = k
    · simp [without, leaves, eq_comm]
    · simp only [without, leaves, if_false, chosen.injEq, iff_self_and]
      rintro rfl
      exact leaves
  | paid client => by_cases leaves : client = k <;> simp [without, leaves]
  | free => simp [without]
  | locked => simp [without]
  | sold => simp [without]

theorem without_eq_paid : claim.without k = .paid i ↔ claim = .paid i ∧ i ≠ k := by
  cases claim with
  | paid client =>
    by_cases leaves : client = k
    · simp [without, leaves, eq_comm]
    · simp only [without, leaves, if_false, paid.injEq, iff_self_and]
      rintro rfl
      exact leaves
  | chosen client => by_cases leaves : client = k <;> simp [without, leaves]
  | free => simp [without]
  | locked => simp [without]
  | sold => simp [without]

theorem paying_eq_chosen : claim.paying k = .chosen i ↔ claim = .chosen i ∧ i ≠ k := by
  by_cases own : claim = .chosen k
  · simp [paying, own, eq_comm]
  · simp only [paying, own, if_false, iff_self_and]
    rintro rfl rfl
    exact own rfl

theorem paying_eq_paid :
    claim.paying k = .paid i ↔ claim = .paid i ∨ (claim = .chosen k ∧ i = k) := by
  by_cases own : claim = .chosen k
  · simp [paying, own, eq_comm]
  · simp [paying, own]

end Claim

/-- Where a client is in its dialogue, with the shift it was shown and the train it is on. -/
inductive Desk where
  | away
  | shift
  | seats (shown : Int) (train : Fin TRAIN_NUM)
  | booked (shown : Int) (train : Fin TRAIN_NUM)
  deriving DecidableEq

/-- What a client at the desk is asked. -/
def Desk.prompt : Desk → List Char
  | away => []
  | shift => writeShiftMsg
  | seats .. => writeSeatMsg
  | booked .. => writeSeatOrExitMsg

/-- The booking info for some seat numbers. -/
def bookingInfo (shown : Int) (chosen paid : List Nat) : List Char :=
  "\nBooking info\n|- Shift ID: ".toList ++ (toString shown).toList ++
    "\n|- Chose seat(s): ".toList ++ [','].intercalate (chosen.map numeral) ++ "\n|- Paid: ".toList ++
    [','].intercalate (paid.map numeral) ++ "\n\n".toList

theorem seatOf_lt {line : List Char} (bounds : 1 ≤ atoi line ∧ atoi line ≤ SEAT_NUM) :
    (atoi line - 1).toNat < SEAT_NUM := by
  omega

/-- The seat that a line names. -/
def seatOf (line : List Char) : Option (Fin SEAT_NUM) :=
  if bounds : 1 ≤ atoi line ∧ atoi line ≤ SEAT_NUM then
    some ⟨(atoi line - 1).toNat, seatOf_lt bounds⟩
  else none

structure Office where
  desk : Nat → Desk
  claim : Cell → Claim
  sent : List (Nat × List Char)

namespace Office

def tell (o : Office) (i : Nat) (texts : List (List Char)) : Office :=
  { o with sent := o.sent ++ texts.map fun text => (i, text) }

def sit (o : Office) (i : Nat) (desk : Desk) : Office :=
  { o with desk := Function.update o.desk i desk }

def assign (o : Office) (cell : Cell) (claim : Claim) : Office :=
  { o with claim := Function.update o.claim cell claim }

def leave (o : Office) (i : Nat) : Office :=
  { o with
    desk := Function.update o.desk i .away
    claim := fun cell => (o.claim cell).without i }

/-- An operation that is invalid at the desk. -/
def turnAway (o : Office) (i : Nat) : Office := (o.tell i [invalidOpMsg]).leave i

/-- The numbers of the seats of a train with a claim. -/
def numbers (o : Office) (train : Fin TRAIN_NUM) (claim : Claim) : List Nat :=
  ((List.finRange SEAT_NUM).filter fun seat => o.claim (train, seat) = claim).map
    fun seat => seat.val + 1

/-- The booking info of client `i`. -/
def info (o : Office) (i : Nat) (shown : Int) (train : Fin TRAIN_NUM) : List Char :=
  bookingInfo shown (o.numbers train (.chosen i)) (o.numbers train (.paid i))

/-- A line of a client that is to select a shift. -/
def select (o : Office) (i : Nat) (line : List Char) (train : Fin TRAIN_NUM) : Office :=
  if line ∉ shiftIds then o.turnAway i
  else if ∃ seat, o.claim (train, seat) = .free then
    let o := o.sit i (.seats (atoi line) train)
    o.tell i [o.info i (atoi line) train, writeSeatMsg]
  else o.tell i [fullMsg, writeShiftMsg]

/-- A client asks for a seat: it takes a free one, and gives back one of its own. -/
def ask (o : Office) (i : Nat) (shown : Int) (train : Fin TRAIN_NUM) (seat : Fin SEAT_NUM) :
    Office :=
  match o.claim (train, seat) with
  | .free =>
      let o := o.assign (train, seat) (.chosen i)
      o.tell i [o.info i shown train, writeSeatMsg]
  | .chosen client =>
      if client = i then
        let o := o.assign (train, seat) .free
        o.tell i [cancelMsg, o.info i shown train, writeSeatMsg]
      else o.tell i [lockMsg, writeSeatMsg]
  | .locked => o.tell i [lockMsg, writeSeatMsg]
  | .paid _ | .sold => o.tell i [seatBookedMsg, writeSeatMsg]

/-- What client `i` has chosen is paid for. -/
def collect (o : Office) (i : Nat) : Office :=
  { o with claim := fun cell => (o.claim cell).paying i }

/-- A client pays for all it has chosen. -/
def pay (o : Office) (i : Nat) (shown : Int) (train : Fin TRAIN_NUM) : Office :=
  if ∃ seat, o.claim (train, seat) = .chosen i then
    let o := (o.sit i (.booked shown train)).collect i
    o.tell i [bookSuccMsg, o.info i shown train, writeSeatOrExitMsg]
  else o.tell i [noSeatMsg, o.info i shown train, writeSeatMsg]

/-- The answer to a line. -/
def serve (o : Office) (i : Nat) (line : List Char) (train : Fin TRAIN_NUM) : Office :=
  if line = "exit".toList then (o.tell i [exitMsg]).leave i
  else
    match o.desk i with
    | .away => o
    | .shift => o.select i line train
    | .seats shown own =>
        if line = "pay".toList then o.pay i shown own
        else
          match seatOf line with
          | some seat => o.ask i shown own seat
          | none => o.turnAway i
    | .booked shown own =>
        if line = "seat".toList then
          (o.sit i (.seats shown own)).tell i [o.info i shown own, writeSeatMsg]
        else o.turnAway i

end Office

/-- What happens at the office. A client may leave without a word, and a shift may be refused to
it although seats are free. -/
inductive Visit where
  | arrive (client : Nat)
  | leave (client : Nat)
  | line (client : Nat) (text : List Char) (train : Fin TRAIN_NUM)
  | refuse (client : Nat)
  deriving DecidableEq

/-- Whose visit it is. -/
def Visit.client : Visit → Nat
  | arrive client => client
  | leave client => client
  | line client _ _ => client
  | refuse client => client

namespace Office

def step (o : Office) : Visit → Option Office
  | .arrive i =>
      if o.desk i = .away then some ((o.sit i .shift).tell i [welcomeBanner, writeShiftMsg])
      else none
  | .leave i => if o.desk i = .away then none else some (o.leave i)
  | .line i text train => if o.desk i = .away then none else some (o.serve i text train)
  | .refuse i => if o.desk i = .shift then some (o.tell i [fullMsg, writeShiftMsg]) else none

/-- The office opens without clients, and some seats are sold. -/
structure Opens (o : Office) : Prop where
  desk : ∀ i, o.desk i = .away
  claim : ∀ cell, o.claim cell = .free ∨ o.claim cell = .sold
  sent : o.sent = []

end Office

def office : Machine Office Visit where
  Initial := Office.Opens
  step := Office.step

/-! ## What a client is told -/

/-- A booking info. -/
def isInfo (text : List Char) : Bool := "\nBooking info\n".toList.isPrefixOf text

/-- The booking info among some messages that came last. -/
def lastInfo (texts : List (List Char)) : Option (List Char) := (texts.filter isInfo).getLast?

theorem isInfo_bookingInfo (shown : Int) (chosen paid : List Nat) :
    isInfo (bookingInfo shown chosen paid) = true := by
  unfold isInfo bookingInfo
  rw [List.isPrefixOf_iff_prefix]
  simp only [List.append_assoc]
  exact ⟨_, by rw [← List.append_assoc]; rfl⟩

theorem lastInfo_append_of_none {texts more : List (List Char)}
    (none : ∀ text ∈ more, isInfo text = false) : lastInfo (texts ++ more) = lastInfo texts := by
  have empty : more.filter isInfo = [] := List.filter_eq_nil_iff.mpr (by simpa using none)
  unfold lastInfo
  rw [List.filter_append, empty, List.append_nil]

/-- A booking info with its prompt. -/
theorem lastInfo_append {texts : List (List Char)} {info prompt : List Char}
    (isAn : isInfo info = true) (other : isInfo prompt = false) :
    lastInfo (texts ++ [info, prompt]) = some info := by
  unfold lastInfo
  rw [List.filter_append, List.filter_cons_of_pos isAn, List.filter_cons_of_neg (by simp [other])]
  simp

theorem isInfo_prompt (desk : Desk) : isInfo desk.prompt = false := by
  cases desk with
  | away => decide
  | shift => decide +kernel
  | seats shown train => exact show isInfo writeSeatMsg = false by decide +kernel
  | booked shown train => exact show isInfo writeSeatOrExitMsg = false by decide +kernel

namespace Office

/-- The messages to client `i`. -/
def told (o : Office) (i : Nat) : List (List Char) :=
  (o.sent.filter fun message => message.1 = i).map fun message => message.2

variable {o o' : Office} {i : Nat} {visit : Visit} {shown : Int} {train : Fin TRAIN_NUM}

@[simp] theorem told_tell (texts : List (List Char)) : (o.tell i texts).told i = o.told i ++ texts := by
  have own : (texts.map fun text => (i, text)).filter (fun message => message.1 = i) =
      texts.map fun text => (i, text) := List.filter_eq_self.mpr (by simp)
  unfold told tell
  rw [List.filter_append, own, List.map_append, List.map_map]
  simp [Function.comp_def]

theorem told_tell_other {k : Nat} (other : i ≠ k) (texts : List (List Char)) :
    (o.tell k texts).told i = o.told i := by
  have none : (texts.map fun text => (k, text)).filter (fun message => message.1 = i) = [] :=
    List.filter_eq_nil_iff.mpr (by simp [Ne.symm other])
  unfold told tell
  rw [List.filter_append, none, List.append_nil]

/-! ## What one visit changes -/

/-- From `o` to `o'` nothing has changed for client `i`. -/
structure Same (i : Nat) (o o' : Office) : Prop where
  desk : o'.desk i = o.desk i
  chosen : ∀ cell, o'.claim cell = .chosen i ↔ o.claim cell = .chosen i
  paid : ∀ cell, o'.claim cell = .paid i ↔ o.claim cell = .paid i
  told : o'.told i = o.told i

namespace Same

variable {k : Nat}

theorem refl (i : Nat) (o : Office) : Same i o o := ⟨rfl, fun _ => .rfl, fun _ => .rfl, rfl⟩

theorem trans {o₁ o₂ o₃ : Office} (first : Same i o₁ o₂) (second : Same i o₂ o₃) : Same i o₁ o₃ where
  desk := second.desk.trans first.desk
  chosen cell := (second.chosen cell).trans (first.chosen cell)
  paid cell := (second.paid cell).trans (first.paid cell)
  told := second.told.trans first.told

theorem tell (same : Same i o o') (other : i ≠ k) (texts : List (List Char)) :
    Same i o (o'.tell k texts) :=
  same.trans ⟨rfl, fun _ => .rfl, fun _ => .rfl, told_tell_other other texts⟩

theorem sit (same : Same i o o') (other : i ≠ k) (desk : Desk) : Same i o (o'.sit k desk) :=
  same.trans ⟨Function.update_of_ne other _ _, fun _ => .rfl, fun _ => .rfl, rfl⟩

/-- A seat that is free or of client `k` changes hands between the two. -/
theorem assign (same : Same i o o') (other : i ≠ k) {cell : Cell} {claim : Claim}
    (before : o'.claim cell = .free ∨ o'.claim cell = .chosen k)
    (after : claim = .free ∨ claim = .chosen k) : Same i o (o'.assign cell claim) := by
  have own : ∀ {c : Claim}, c = .free ∨ c = .chosen k → c ≠ .chosen i ∧ c ≠ .paid i := by
    rintro _ (rfl | rfl)
    · exact ⟨by simp, by simp⟩
    · exact ⟨by simpa using other.symm, by simp⟩
  apply same.trans
  refine ⟨rfl, fun cell' => ?_, fun cell' => ?_, rfl⟩
  · by_cases here : cell' = cell
    · subst here
      simp [Office.assign, own before, own after]
    · simp [Office.assign, here]
  · by_cases here : cell' = cell
    · subst here
      simp [Office.assign, own before, own after]
    · simp [Office.assign, here]

theorem leave (same : Same i o o') (other : i ≠ k) : Same i o (o'.leave k) := by
  apply same.trans
  refine ⟨Function.update_of_ne other _ _, fun cell => ?_, fun cell => ?_, rfl⟩
  · exact Claim.without_eq_chosen.trans (and_iff_left other)
  · exact Claim.without_eq_paid.trans (and_iff_left other)

theorem collect (same : Same i o o') (other : i ≠ k) : Same i o (o'.collect k) := by
  apply same.trans
  refine ⟨rfl, fun cell => ?_, fun cell => ?_, rfl⟩
  · exact Claim.paying_eq_chosen.trans (and_iff_left other)
  · exact Claim.paying_eq_paid.trans (or_iff_left fun both => other both.2)

end Same

theorem Same.serve {k : Nat} (other : i ≠ k) (line : List Char) (train : Fin TRAIN_NUM) :
    Same i o (o.serve k line train) := by
  have same := Same.refl i o
  unfold Office.serve
  split
  · exact (same.tell other _).leave other
  split
  · exact same
  · unfold select turnAway
    split
    · exact (same.tell other _).leave other
    split
    · exact (same.sit other _).tell other _
    · exact same.tell other _
  · rename_i shown own desk
    split
    · unfold pay
      split
      · exact ((same.sit other _).collect other).tell other _
      · exact same.tell other _
    split
    · rename_i seat named
      unfold ask
      split
      · rename_i free
        exact (same.assign other (.inl free) (.inr rfl)).tell other _
      · rename_i client chosen
        split
        · rename_i own
          exact (same.assign other (.inr (by rw [chosen, own])) (.inl rfl)).tell other _
        · exact same.tell other _
      · exact same.tell other _
      · exact same.tell other _
      · exact same.tell other _
    · exact (same.tell other _).leave other
  · split
    · exact (same.sit other _).tell other _
    · exact (same.tell other _).leave other

/-- A visit changes nothing for the other clients. -/
theorem step_same (transition : o.step visit = some o') (other : i ≠ visit.client) : Same i o o' := by
  have same := Same.refl i o
  cases visit with
  | arrive k =>
    obtain ⟨_, next⟩ := Option.ite_none_right_eq_some.mp transition
    obtain rfl := Option.some.inj next
    exact (same.sit other _).tell other _
  | leave k =>
    obtain ⟨_, next⟩ := Option.ite_none_left_eq_some.mp transition
    obtain rfl := Option.some.inj next
    exact same.leave other
  | line k text train =>
    obtain ⟨_, next⟩ := Option.ite_none_left_eq_some.mp transition
    obtain rfl := Option.some.inj next
    exact Same.serve other text train
  | refuse k =>
    obtain ⟨_, next⟩ := Option.ite_none_right_eq_some.mp transition
    obtain rfl := Option.some.inj next
    exact same.tell other _

/-! ## What a client knows -/

/-- The seats of client `i` are on the train of its desk. -/
def Placed (o : Office) (i : Nat) : Prop :=
  ∀ cell, o.claim cell = .chosen i ∨ o.claim cell = .paid i →
    ∃ shown, o.desk i = .seats shown cell.1 ∨ o.desk i = .booked shown cell.1

/-- Client `i` was asked last what its desk asks, and its last booking info is its booking. -/
structure Candid (o : Office) (i : Nat) : Prop where
  prompt : o.desk i ≠ .away → (o.told i).getLast? = some (o.desk i).prompt
  info : ∀ shown train, o.desk i = .seats shown train ∨ o.desk i = .booked shown train →
    lastInfo (o.told i) = some (o.info i shown train)
  placed : o.Placed i

theorem numbers_congr {claim : Claim} (same : ∀ cell, o'.claim cell = claim ↔ o.claim cell = claim) :
    o'.numbers train claim = o.numbers train claim := by
  unfold numbers
  simp only [same]

theorem Same.candid (same : Same i o o') (candid : o.Candid i) : o'.Candid i where
  prompt := by
    rw [same.desk, same.told]
    exact candid.prompt
  info shown train desk := by
    rw [same.desk] at desk
    unfold Office.info
    rw [same.told, numbers_congr same.chosen, numbers_congr same.paid]
    exact candid.info shown train desk
  placed cell held := by
    rw [same.chosen, same.paid] at held
    rw [same.desk]
    exact candid.placed cell held

/-- The booking info and the prompt end an answer. -/
theorem candid_informed {p : List Char} (placed : o.Placed i)
    (desk : o.desk i = .seats shown train ∨ o.desk i = .booked shown train)
    (asks : (o.desk i).prompt = p) (first : List (List Char)) :
    (o.tell i (first ++ [o.info i shown train, p])).Candid i where
  prompt _ := by
    change _ = some (o.desk i).prompt
    rw [told_tell, asks, ← List.append_assoc]
    simp
  info shown' train' desk' := by
    have same : shown' = shown ∧ train' = train := by
      change o.desk i = _ ∨ o.desk i = _ at desk'
      rcases desk with seats | booked
      · simpa [seats, eq_comm] using desk'
      · simpa [booked, eq_comm] using desk'
    obtain ⟨rfl, rfl⟩ := same
    change _ = some (o.info i shown' train')
    rw [told_tell, ← List.append_assoc]
    refine lastInfo_append (isInfo_bookingInfo ..) ?_
    rw [← asks]
    exact isInfo_prompt _
  placed := placed

/-- A message and the prompt are no news. -/
theorem Candid.answered {message p : List Char} (candid : o.Candid i) (asks : (o.desk i).prompt = p)
    (plain : isInfo message = false) : (o.tell i [message, p]).Candid i where
  prompt _ := by
    change _ = some (o.desk i).prompt
    rw [told_tell, asks]
    simp
  info shown train desk := by
    change _ = some (o.info i shown train)
    rw [told_tell, lastInfo_append_of_none]
    · exact candid.info shown train desk
    · rw [← asks]
      simp [plain, isInfo_prompt]
  placed := candid.placed

/-- A client that has left has no seat. -/
theorem candid_leave (o : Office) (i : Nat) : (o.leave i).Candid i := by
  have gone : (o.leave i).desk i = .away := Function.update_self ..
  refine ⟨fun here => absurd gone here, fun shown train desk => ?_, fun cell held => ?_⟩
  · simp [gone] at desk
  · exfalso
    rcases held with chosen | paid
    · exact (Claim.without_eq_chosen.mp chosen).2 rfl
    · exact (Claim.without_eq_paid.mp paid).2 rfl

/-- A client without a seat is asked for the shift. -/
theorem candid_shift (placed : ∀ cell, o.claim cell ≠ .chosen i ∧ o.claim cell ≠ .paid i)
    (desk : o.desk i = .shift) (first : List Char) :
    (o.tell i [first, writeShiftMsg]).Candid i where
  prompt _ := by
    change _ = some (o.desk i).prompt
    rw [told_tell, desk]
    simp [Desk.prompt]
  info shown train other := by
    change o.desk i = _ ∨ o.desk i = _ at other
    simp [desk] at other
  placed cell held := by
    obtain ⟨chosen, paid⟩ := placed cell
    rcases held with held | held
    · exact absurd held chosen
    · exact absurd held paid

/-- Away from the seats a client has none. -/
theorem Candid.none (candid : o.Candid i) (desk : o.desk i = .away ∨ o.desk i = .shift) (cell : Cell) :
    o.claim cell ≠ .chosen i ∧ o.claim cell ≠ .paid i := by
  refine ⟨fun chosen => ?_, fun paid => ?_⟩
  · obtain ⟨shown, seats | booked⟩ := candid.placed cell (.inl chosen)
    · simp [seats] at desk
    · simp [booked] at desk
  · obtain ⟨shown, seats | booked⟩ := candid.placed cell (.inr paid)
    · simp [seats] at desk
    · simp [booked] at desk

/-- Only seats of its train are a client's. -/
theorem Candid.on (candid : o.Candid i) {cell : Cell}
    (desk : o.desk i = .seats shown train ∨ o.desk i = .booked shown train)
    (held : o.claim cell = .chosen i ∨ o.claim cell = .paid i) : cell.1 = train := by
  obtain ⟨shown', at'⟩ := candid.placed cell held
  rcases desk with seats | booked
  · simp only [seats, Desk.seats.injEq, reduceCtorEq, or_false] at at'
    exact at'.2.symm
  · simp only [booked, Desk.booked.injEq, reduceCtorEq, false_or] at at'
    exact at'.2.symm

theorem candid_select (candid : o.Candid i) (desk : o.desk i = .shift) (line : List Char)
    (train : Fin TRAIN_NUM) : (o.select i line train).Candid i := by
  have none := candid.none (.inr desk)
  unfold select
  split
  · exact candid_leave _ i
  split
  · have seats : (o.sit i (.seats (atoi line) train)).desk i = .seats (atoi line) train :=
      Function.update_self ..
    refine candid_informed (fun cell held => ?_) (.inl seats) (by rw [seats]; rfl) []
    exact absurd held (not_or.mpr (none cell))
  · exact candid_shift none desk fullMsg

/-- A seat of its train becomes one of client `i`, or one of nobody. -/
theorem Candid.assign (candid : o.Candid i) {claim : Claim} {seat : Fin SEAT_NUM}
    (desk : o.desk i = .seats shown train) : (o.assign (train, seat) claim).Placed i := by
  intro cell held
  by_cases here : cell = (train, seat)
  · exact ⟨shown, .inl (by rw [here]; exact desk)⟩
  · have before : o.claim cell = .chosen i ∨ o.claim cell = .paid i := by
      simpa [Office.assign, here] using held
    exact candid.placed cell before

theorem candid_ask (candid : o.Candid i) (desk : o.desk i = .seats shown train)
    (seat : Fin SEAT_NUM) : (o.ask i shown train seat).Candid i := by
  have asks : (o.desk i).prompt = writeSeatMsg := by
    rw [desk]
    rfl
  have locked := candid.answered asks (show isInfo lockMsg = false by decide +kernel)
  have booked := candid.answered asks (show isInfo seatBookedMsg = false by decide +kernel)
  unfold ask
  split
  · exact candid_informed (candid.assign desk) (.inl desk) asks []
  · split
    · exact candid_informed (candid.assign desk) (.inl desk) asks [cancelMsg]
    · exact locked
  · exact locked
  · exact booked
  · exact booked

theorem candid_pay (candid : o.Candid i) (desk : o.desk i = .seats shown train) :
    (o.pay i shown train).Candid i := by
  unfold pay
  split
  · have booked : ((o.sit i (.booked shown train)).collect i).desk i = .booked shown train :=
      Function.update_self ..
    refine candid_informed (fun cell held => ⟨shown, .inr ?_⟩) (.inr booked)
      (congrArg Desk.prompt booked) [bookSuccMsg]
    have before : o.claim cell = .chosen i ∨ o.claim cell = .paid i := by
      rcases held with chosen | paid
      · exact .inl (Claim.paying_eq_chosen.mp chosen).1
      · exact (Claim.paying_eq_paid.mp paid).symm.imp_left And.left
    rw [candid.on (.inl desk) before]
    exact booked
  · have asks : (o.desk i).prompt = writeSeatMsg := by
      rw [desk]
      rfl
    exact candid_informed candid.placed (.inl desk) asks [noSeatMsg]

theorem candid_serve (candid : o.Candid i) (line : List Char) (train : Fin TRAIN_NUM) :
    (o.serve i line train).Candid i := by
  unfold serve
  split
  · exact candid_leave _ i
  split
  · exact candid
  · rename_i desk
    exact candid_select candid desk line train
  · rename_i shown own desk
    split
    · exact candid_pay candid desk
    split
    · exact candid_ask candid desk _
    · exact candid_leave _ i
  · rename_i shown own desk
    split
    · have seats : (o.sit i (.seats shown own)).desk i = .seats shown own :=
        Function.update_self ..
      refine candid_informed (fun cell held => ⟨shown, .inl ?_⟩) (.inl seats)
        (congrArg Desk.prompt seats) []
      rw [candid.on (.inr desk) held]
      exact seats
    · exact candid_leave _ i

/-- Every visit is candid. -/
theorem step_candid (candid : ∀ i, o.Candid i) (transition : o.step visit = some o') (i : Nat) :
    o'.Candid i := by
  by_cases other : i = visit.client
  · subst other
    have own := candid visit.client
    cases visit with
    | arrive k =>
      obtain ⟨away, next⟩ := Option.ite_none_right_eq_some.mp transition
      obtain rfl := Option.some.inj next
      have shift : (o.sit k .shift).desk k = .shift := Function.update_self ..
      exact candid_shift (o := o.sit k .shift) (own.none (.inl away)) shift welcomeBanner
    | leave k =>
      obtain ⟨_, next⟩ := Option.ite_none_left_eq_some.mp transition
      obtain rfl := Option.some.inj next
      exact candid_leave o k
    | line k text train =>
      obtain ⟨_, next⟩ := Option.ite_none_left_eq_some.mp transition
      obtain rfl := Option.some.inj next
      exact candid_serve own text train
    | refuse k =>
      obtain ⟨desk, next⟩ := Option.ite_none_right_eq_some.mp transition
      obtain rfl := Option.some.inj next
      exact candid_shift (own.none (.inr desk)) desk fullMsg
  · exact (step_same transition other).candid (candid i)

/-- At every moment every client was told its booking, and asked what its desk asks. -/
theorem Opens.candid (opens : o.Opens) (i : Nat) : o.Candid i where
  prompt here := absurd (opens.desk i) here
  info shown train desk := by simp [opens.desk] at desk
  placed cell held := by
    rcases opens.claim cell with free | sold
    · simp [free] at held
    · simp [sold] at held

end Office

end NTUSP.Server
