import NTUSP.Server.LifeCycle

/-!
# Train files behind a stop

The history of a run lists what clients did to seats. It tells every cell of the train
files: `'1'` for the seats sold before the run and the paid ones, `'2'` for a seat that was
chosen and neither cancelled nor paid for since. Nothing at start-up clears a `'2'`, so the
files are in order behind a stop exactly if no seat is left like that.
-/

namespace NTUSP.Server

open NTUSP.Library CString

/-- What one event makes of whether seat `k` of the file `fd` is outstanding. -/
def SeatEvent.hold (fd : Int) (k : Nat) (held : Bool) (event : SeatEvent) : Bool :=
  if event = .chose fd k then true
  else if event = .cancelled fd k then false
  else if event = .paid fd k then false
  else held

/-- The seat was chosen, and has been neither cancelled nor paid for since. -/
def outstanding (history : List SeatEvent) (fd : Int) (k : Nat) : Bool :=
  history.foldl (SeatEvent.hold fd k) false

/-- The seat was booked before the run or paid for in it. -/
def Sold (cfg : Config) (disk : Fin TRAIN_NUM → List Char) (history : List SeatEvent)
    (j : Fin TRAIN_NUM) (k : Nat) : Prop :=
  (disk j)[2 * k]? = some '1' ∨ SeatEvent.paid (cfg.trains j) k ∈ history

/-- The server started again on the train files of `w`. -/
def restarted (cfg : Config) (heap : Nat → List Char) (w : World) : World :=
  World.initServer cfg heap fun j => (w.files (cfg.trains j)).bytes

/-- What `checkCurr` finds about seat `k` for a connection that is booked on train `j`. -/
def World.lookUp (cfg : Config) (env : Env) (w : World) (i : Nat) (j : Fin TRAIN_NUM) (k : Nat) :
    Option Int :=
  ((w.setRecord i { initRecord with trainFd := cfg.trains j }).checkCurr cfg env 0 i (k + 1)).2

/-- If the process stops in `w`, the sold seats are `'1'`, and every other seat is `'0'` and
available once the server runs again. -/
structure CrashConsistent (cfg : Config) (disk : Fin TRAIN_NUM → List Char)
    (history : List SeatEvent) (w : World) : Prop where
  sold : ∀ j k, k < SEAT_NUM → Sold cfg disk history j k → w.seatByte cfg j k = some '1'
  free : ∀ j k, k < SEAT_NUM → ¬ Sold cfg disk history j k → w.seatByte cfg j k = some '0'
  available : ∀ heap env i j k, env.Succeeds → k < SEAT_NUM → ¬ Sold cfg disk history j k →
    (restarted cfg heap w).lookUp cfg env i j k = some 0

section

variable {history events : List SeatEvent} {fd : Int} {k : Nat}

theorem outstanding_append :
    outstanding (history ++ events) fd k =
      events.foldl (SeatEvent.hold fd k) (outstanding history fd k) := List.foldl_append ..

/-- Events about other seats change nothing. -/
theorem outstanding_others (chose : SeatEvent.chose fd k ∉ events)
    (cancelled : SeatEvent.cancelled fd k ∉ events) (paid : SeatEvent.paid fd k ∉ events) :
    outstanding (history ++ events) fd k = outstanding history fd k := by
  rw [outstanding_append]
  generalize outstanding history fd k = held
  induction events with
  | nil => rfl
  | cons event rest ih =>
    rw [List.mem_cons, not_or] at chose cancelled paid
    rw [List.foldl_cons, SeatEvent.hold, if_neg (Ne.symm chose.1), if_neg (Ne.symm cancelled.1),
      if_neg (Ne.symm paid.1)]
    exact ih chose.2 cancelled.2 paid.2

/-- A seat that is paid for, and not chosen again, is not outstanding. -/
theorem outstanding_paid (chose : SeatEvent.chose fd k ∉ events)
    (paid : SeatEvent.paid fd k ∈ events) : outstanding (history ++ events) fd k = false := by
  rw [outstanding_append]
  generalize outstanding history fd k = held
  have stays : ∀ rest : List SeatEvent, SeatEvent.chose fd k ∉ rest →
      rest.foldl (SeatEvent.hold fd k) false = false := by
    intro rest absent
    induction rest with
    | nil => rfl
    | cons event rest ih =>
      rw [List.mem_cons, not_or] at absent
      have still : SeatEvent.hold fd k false event = false := by
        simp [SeatEvent.hold, Ne.symm absent.1]
      rw [List.foldl_cons, still]
      exact ih absent.2
  induction events generalizing held with
  | nil => cases paid
  | cons event rest ih =>
    rw [List.mem_cons, not_or] at chose
    rw [List.foldl_cons]
    rcases List.mem_cons.mp paid with rfl | later
    · have dropped : SeatEvent.hold fd k held (.paid fd k) = false := by simp [SeatEvent.hold]
      rw [dropped]
      exact stays rest chose.2
    · exact ih chose.2 later _

end

/-- The history tells the cells of the train files. -/
structure Logged (cfg : Config) (disk : Fin TRAIN_NUM → List Char) (history : List SeatEvent)
    (t : Tables) : Prop where
  locked : ∀ j k, k < SEAT_NUM →
    (t.seatByte cfg j k = some '2' ↔ outstanding history (cfg.trains j) k = true)
  sold : ∀ j k, k < SEAT_NUM → (t.seatByte cfg j k = some '1' ↔ Sold cfg disk history j k)

namespace Logged

variable {cfg : Config} {disk : Fin TRAIN_NUM → List Char} {history events : List SeatEvent}
  {t u : Tables} {i k : Nat} {j : Fin TRAIN_NUM}

theorem of_same (logged : Logged cfg disk history t)
    (same : ∀ j k, u.seatByte cfg j k = t.seatByte cfg j k) :
    Logged cfg disk (history ++ []) u := by
  obtain ⟨locked, sold⟩ := logged
  constructor <;> simp only [same, List.append_nil]
  · exact locked
  · exact sold

/-- The events of a step name the seats whose cells change, with what they change to. -/
theorem extend (logged : Logged cfg disk history t)
    (cells : ∀ j k, k < SEAT_NUM →
      (u.seatByte cfg j k = t.seatByte cfg j k ∧ SeatEvent.chose (cfg.trains j) k ∉ events ∧
          SeatEvent.cancelled (cfg.trains j) k ∉ events ∧
          SeatEvent.paid (cfg.trains j) k ∉ events) ∨
        (events = [.chose (cfg.trains j) k] ∧ t.seatByte cfg j k = some '0' ∧
          u.seatByte cfg j k = some '2') ∨
        (events = [.cancelled (cfg.trains j) k] ∧ t.seatByte cfg j k = some '2' ∧
          u.seatByte cfg j k = some '0') ∨
        (SeatEvent.paid (cfg.trains j) k ∈ events ∧ SeatEvent.chose (cfg.trains j) k ∉ events ∧
          u.seatByte cfg j k = some '1')) : Logged cfg disk (history ++ events) u := by
  constructor
  · intro j k bound
    rcases cells j k bound with ⟨same, chose, cancelled, paid⟩ | ⟨rfl, _, after⟩ |
      ⟨rfl, _, after⟩ | ⟨paid, chose, after⟩
    · rw [same, outstanding_others chose cancelled paid]
      exact logged.locked j k bound
    · rw [after, outstanding_append]
      simp [SeatEvent.hold]
    · rw [after, outstanding_append]
      simp [SeatEvent.hold]
    · rw [after, outstanding_paid chose paid]
      simp
  · intro j k bound
    have before := logged.sold j k bound
    unfold Sold at before ⊢
    rw [List.mem_append]
    rcases cells j k bound with ⟨same, _, _, paid⟩ | ⟨rfl, zero, after⟩ | ⟨rfl, two, after⟩ |
      ⟨paid, _, after⟩
    · rw [same, before]
      simp [paid]
    · rw [zero] at before
      rw [after]
      simpa using before
    · rw [two] at before
      rw [after]
      simpa using before
    · exact iff_of_true after (.inr (.inr paid))

end Logged

section

variable {cfg : Config} {disk : Fin TRAIN_NUM → List Char} {history events : List SeatEvent}
  {w : World} {u : Tables} {action : Action}

/-- The chosen seats of a connection are paid, with an event for each. -/
theorem logged_pay {i : Nat} {j : Fin TRAIN_NUM} (kept : w.Kept cfg)
    (logged : Logged cfg disk history w.settle) (record : w.On cfg i j)
    (after : (w.settle.payTurns i (cfg.trains j) SEAT_NUM).Seated cfg) :
    Logged cfg disk (history ++ (w.paidSeats i).map (.paid (cfg.trains j)))
      (w.settle.payTurns i (cfg.trains j) SEAT_NUM) := by
  have inside : ∀ k < SEAT_NUM, (w.settle.recordP i).seatStat k = .CHOSEN →
      2 * k < (w.settle.files (cfg.trains j)).bytes.length :=
    fun k bound _ => kept.seated.inside bound
  have bytes := (Tables.payTurns_bytes (i := i) inside).2
  have member : ∀ j' k', SeatEvent.paid (cfg.trains j') k' ∈
      (w.paidSeats i).map (SeatEvent.paid (cfg.trains j)) ↔
        j' = j ∧ k' < SEAT_NUM ∧ (w.recordP i).seatStat k' = .CHOSEN := by
    intro j' k'
    simp only [Tables.paidSeats, List.mem_map, List.mem_filter, List.mem_range,
      decide_eq_true_eq, SeatEvent.paid.injEq]
    constructor
    · rintro ⟨k, held, train, rfl⟩
      exact ⟨(cfg.distinct (Int.ofNat.inj train)).symm, held⟩
    · rintro ⟨rfl, held⟩
      exact ⟨k', held, rfl, rfl⟩
  apply logged.extend
  intro j' k' bound
  by_cases paid : j' = j ∧ k' < SEAT_NUM ∧ (w.recordP i).seatStat k' = .CHOSEN
  · obtain ⟨rfl, _, chosen⟩ := paid
    refine .inr (.inr (.inr ⟨(member j' k').mpr ⟨rfl, bound, chosen⟩, by simp, ?_⟩))
    have now : ((w.settle.payTurns i (cfg.trains j') SEAT_NUM).recordP i).seatStat k' = .PAID := by
      rw [Tables.payTurns_seatStat, if_pos ⟨bound, chosen⟩]
    have on : (w.settle.payTurns i (cfg.trains j') SEAT_NUM).On cfg i j' := by
      unfold Tables.On
      rw [Tables.payTurns_same.2]
      exact record
    have cell := after.held i j' k' bound on (by simp [now])
    rwa [now] at cell
  · refine .inl ⟨?_, by simp, by simp, fun found => paid ((member j' k').mp found)⟩
    unfold Tables.seatByte TrainFile.cell
    by_cases same : j' = j
    · subst same
      rcases bytes (2 * k') with unchanged | ⟨k, _, place, chosen, _⟩
      · exact unchanged
      · have equal : k = k' := by omega
        subst equal
        exact absurd ⟨rfl, bound, chosen⟩ paid
    · rw [Tables.payTurns_elsewhere (trains_ne same)]

/-- The events of a deed are the cells it changes. -/
theorem Deed.logged {i : Nat} (deed : Deed cfg w i events u) (kept : w.Kept cfg)
    (logged : Logged cfg disk history w.settle) :
    Logged cfg disk (history ++ events) u := by
  have after := deed.seated kept
  cases deed with
  | nothing => exact logged.of_same fun _ _ => rfl
  | closed => exact logged.of_same fun _ _ => rfl
  | again booked => exact logged.of_same fun _ _ => rfl
  | bind shift => exact logged.of_same fun _ _ => rfl
  | choose line index bound record other available =>
    rename_i k j
    have zero := kept.seated.zero_of_available bound available
    apply logged.extend
    intro j' k' _
    rw [Tables.mark_seatByte zero]
    by_cases here : j' = j ∧ k' = k
    · obtain ⟨rfl, rfl⟩ := here
      exact .inr (.inl ⟨rfl, zero, if_pos ⟨rfl, rfl⟩⟩)
    · have apart : ¬ ((cfg.trains j' : Int) = cfg.trains j ∧ k' = k) :=
        fun same => here ⟨cfg.distinct (Int.ofNat.inj same.1), same.2⟩
      exact .inl ⟨if_neg here, by simpa using apart, by simp, by simp⟩
  | cancel line index bound record chosen =>
    rename_i k j
    have two := kept.held bound record chosen (by decide)
    apply logged.extend
    intro j' k' _
    rw [Tables.mark_seatByte (t := w.settle) two]
    by_cases here : j' = j ∧ k' = k
    · obtain ⟨rfl, rfl⟩ := here
      exact .inr (.inr (.inl ⟨rfl, two, if_pos ⟨rfl, rfl⟩⟩))
    · have apart : ¬ ((cfg.trains j' : Int) = cfg.trains j ∧ k' = k) :=
        fun same => here ⟨cfg.distinct (Int.ofNat.inj same.1), same.2⟩
      exact .inl ⟨if_neg here, by simp, by simpa using apart, by simp⟩
  | pay seat line record some => exact logged_pay kept logged record after

theorem Turn.logged (turn : Turn cfg w action events u) (kept : w.Kept cfg)
    (logged : Logged cfg disk history w.settle) : Logged cfg disk (history ++ events) u := by
  cases turn with
  | accept free => exact logged.of_same fun _ _ => rfl
  | close live => exact logged.of_same fun _ _ => rfl
  | line live received deed =>
    exact deed.logged (kept.store _ _) ⟨logged.locked, logged.sold⟩

end

/-! ## Stopping in any state -/

variable {cfg : Config} {heap : Nat → List Char} {disk : Fin TRAIN_NUM → List Char}

/-- The server with the history of its seats. -/
def recordedServer (cfg : Config) (heap : Nat → List Char) (disk : Fin TRAIN_NUM → List Char) :
    Machine (World × List SeatEvent) Action :=
  (machine cfg heap disk).recording (World.stepEvents cfg)

theorem logged_reached (unlocked : Unlocked disk) {state : World × List SeatEvent}
    (reached : (recordedServer cfg heap disk).Reach (fun state => inRange state.1) state) :
    Logged cfg disk state.2 state.1.settle := by
  refine reached.invariant (fun state => Logged cfg disk state.2 state.1.settle) ?_ ?_
  · rintro ⟨w, history⟩ ⟨first, empty⟩
    have start : w = World.initServer cfg heap disk := first
    have none : history = [] := empty
    subst start none
    constructor
    · intro j k bound
      have byte := initServer_seatByte cfg heap disk j k
      change (World.initServer cfg heap disk).seatByte cfg j k = some '2' ↔ false = true
      rw [byte]
      rcases unlocked j k bound with free | sold
      · simp [free]
      · simp [sold]
    · intro j k _
      change (World.initServer cfg heap disk).seatByte cfg j k = some '1' ↔ _
      rw [initServer_seatByte]
      simp [Sold]
  · intro state action next prior logged allowed transition
    obtain ⟨stepped, grown⟩ := Machine.recording_step transition
    have kept := kept_reached unlocked prior.forget
    rw [grown]
    exact (World.step_turn kept.sound allowed stepped).logged kept logged

/-- A restarted server finds what the cell says. -/
theorem restarted_lookUp {env : Env} {w : World} (succeeds : env.Succeeds) {i : Nat}
    {j : Fin TRAIN_NUM} {k : Nat} {c : Char} (cell : w.seatByte cfg j k = some c) :
    (restarted cfg heap w).lookUp cfg env i j k = some (cellCode c) := by
  have index : (k : Int) + 1 - 1 = k := by omega
  have record : (((restarted cfg heap w).setRecord i
      { initRecord with trainFd := cfg.trains j }).recordP i).trainFd = cfg.trains j := by
    simp [World.setRecord]
  have found : ((restarted cfg heap w).files (cfg.trains j)).cell k = some c :=
    (initServer_seatByte cfg heap _ j k).trans cell
  exact World.checkCurr_code succeeds rfl record ⟨rfl, rfl⟩ index found 0

/-- If the server is stopped in any state of a run from train files without a locked seat, the
files are in order exactly if every seat that was chosen in the run has been cancelled or paid
for since. -/
theorem crashConsistent_iff (unlocked : Unlocked disk) {w : World} {history : List SeatEvent}
    (reached : (recordedServer cfg heap disk).Reach (fun state => inRange state.1) (w, history)) :
    CrashConsistent cfg disk history w ↔
      ∀ j k, k < SEAT_NUM → outstanding history (cfg.trains j) k = false := by
  have kept : w.Kept cfg := kept_reached unlocked reached.forget
  have logged : Logged cfg disk history w.settle := logged_reached unlocked reached
  constructor
  · intro consistent j k bound
    by_contra held
    have two : w.seatByte cfg j k = some '2' :=
      (logged.locked j k bound).mpr (by simpa using held)
    have unsold : ¬ Sold cfg disk history j k := by
      intro sold
      have one := consistent.sold j k bound sold
      rw [two] at one
      cases one
    have zero := consistent.free j k bound unsold
    rw [two] at zero
    cases zero
  · intro settled
    have free : ∀ j k, k < SEAT_NUM → ¬ Sold cfg disk history j k →
        w.seatByte cfg j k = some '0' := by
      intro j k bound unsold
      obtain ⟨seat, cell⟩ := kept.seated.readable j k bound
      cases seat with
      | UNKNOWN => exact cell
      | CHOSEN =>
        have held := (logged.locked j k bound).mp cell
        rw [settled j k bound] at held
        cases held
      | PAID => exact absurd ((logged.sold j k bound).mp cell) unsold
    refine ⟨fun j k bound => (logged.sold j k bound).mpr, free, ?_⟩
    intro heap' env i j k succeeds bound unsold
    exact restarted_lookUp succeeds (free j k bound unsold)

/-- The small server with the history of its seats. -/
def smallRecorded : Machine (World × List SeatEvent) Action :=
  recordedServer smallConfig (fun _ => []) fun _ => freeTrain

/-- A client cancels seat 3 and pays for seat 4, and the process is stopped. -/
theorem crashConsistent_paid :
    ∃ w history, smallRecorded.Reach (fun state => inRange state.1) (w, history) ∧
      history = [.chose 3 2, .chose 3 3, .cancelled 3 2, .paid 3 3] ∧
      (CrashConsistent smallConfig (fun _ => freeTrain) history w ↔
        ∀ j k, k < SEAT_NUM → outstanding history (smallConfig.trains j) k = false) := by
  have ran : (smallRecorded.exec (fun state action => inRange state.1 action) (smallStart, [])
      [.accept 9, sends 9 "902001", sends 9 "3", sends 9 "4", sends 9 "3", sends 9 "pay"]).map
        (fun state => state.2) =
      some [.chose 3 2, .chose 3 3, .cancelled 3 2, .paid 3 3] := by
    decide +kernel
  have start : smallRecorded.Initial (smallStart, []) := ⟨rfl, rfl⟩
  obtain ⟨⟨w, history⟩, reached, events⟩ := Machine.Reach.of_ran start ran
  exact ⟨w, history, reached, events, crashConsistent_iff freeTrain_unlocked reached⟩

/-- A client chooses seat 3, and the process is stopped. -/
theorem crash_leaves_lock :
    ∃ w history, smallRecorded.Reach (fun state => inRange state.1) (w, history) ∧
      ¬ CrashConsistent smallConfig (fun _ => freeTrain) history w := by
  have ran : (smallRecorded.exec (fun state action => inRange state.1 action) (smallStart, [])
      [.accept 9, sends 9 "902001", sends 9 "3"]).map
        (fun state => (state.1.seatByte smallConfig ⟨0, by decide⟩ 2, state.2)) =
      some (some '2', [.chose 3 2]) := by
    decide +kernel
  have start : smallRecorded.Initial (smallStart, []) := ⟨rfl, rfl⟩
  obtain ⟨⟨w, history⟩, reached, result⟩ := Machine.Reach.of_ran start ran
  obtain ⟨two, events⟩ := Prod.mk.inj result
  refine ⟨w, history, reached, fun consistent => ?_⟩
  have first : (freeTrain[2 * 2]? : Option Char) = some '0' := by decide +kernel
  have unsold : ¬ Sold smallConfig (fun _ => freeTrain) history ⟨0, by decide⟩ 2 := by
    have one : history = [.chose 3 2] := events
    simp [Sold, one, first]
  have zero := consistent.free ⟨0, by decide⟩ 2 (by decide) unsold
  rw [two] at zero
  cases zero

end NTUSP.Server
