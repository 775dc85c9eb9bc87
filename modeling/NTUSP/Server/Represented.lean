import NTUSP.Server.Commute
import NTUSP.Server.FullShift
import NTUSP.Server.Recorded

/-!
# The server represents the office

Every step of the server is one visit to the office, or nothing the clients see. With its calls
succeeding and its look-ups in range it is the visit that `World.visit` reads off the step.
Otherwise a client may also be ended without a word, or be refused a shift that has free seats.
-/

namespace NTUSP.Server

open NTUSP.Library CString

/-! ## What a line at the seats is answered -/

section

variable {q : Request} {r : Record} {k : Nat} {code : Nat → Int} {c : Int}

/-- Calls that fail only take the answer away. -/
theorem reactChoose_failing (calls : ∀ call, code call = c ∨ code call = -1) :
    reactChoose q r k code = reactChoose q r k (fun _ => c) ∨
      reactChoose q r k code = (.ended, []) := by
  have unchanged : ∀ call n, 0 ≤ n → code call = n → c = n := by
    intro call n positive same
    rcases calls call with right | failed
    · rw [← same, right]
    · omega
  unfold reactChoose
  dsimp only
  by_cases first : code 0 = 0
  · rw [if_pos first, if_pos (unchanged 0 0 (by decide) first)]
    exact .inl rfl
  rw [if_neg first]
  by_cases second : code 1 = 1
  · have right := unchanged 1 1 (by decide) second
    rw [if_pos second, if_neg (by omega), if_pos right]
    exact .inl rfl
  rw [if_neg second]
  by_cases third : code 2 = 2
  · have right := unchanged 2 2 (by decide) third
    rw [if_pos third, if_neg (by omega), if_neg (by omega), if_pos right]
    exact .inl rfl
  rw [if_neg third]
  exact .inr rfl

end

namespace Tables

variable {cfg : Config} {env : Env} {t : Tables} {o o' : Office} {i : Nat} {j : Fin TRAIN_NUM}

/-- An edit of connection `i` with its answer is what the office does. -/
structure Matches (cfg : Config) (t : Tables) (i : Nat) (j : Fin TRAIN_NUM)
    (answer : Edit × List (List Char)) (o o' : Office) : Prop where
  records : (t.edit i (cfg.trains j) answer.1).Records cfg o'
  sent : o'.sent = o.sent ++ answer.2.map fun text => (i, text)

/-- Messages are not recorded. -/
theorem Records.tell (records : t.Records cfg o) (i : Nat) (texts : List (List Char)) :
    t.Records cfg (o.tell i texts) :=
  ⟨records.desk, records.chosen, records.paid, records.byte⟩

theorem matches_ended (records : t.Records cfg o) (texts : List (List Char)) :
    Matches cfg t i j (.ended, texts) o ((o.tell i texts).leave i) where
  records := by
    rw [edit_ended]
    exact (records.tell i texts).closeConn i
  sent := rfl

theorem matches_same (records : t.Records cfg o) (texts : List (List Char)) :
    Matches cfg t i j (.same (t.requestP i) (t.recordP i), texts) o (o.tell i texts) where
  records := by
    rw [edit_same]
    exact records.tell i texts
  sent := rfl

/-- `checkCurr` finds the byte of a claim, or fails. -/
theorem Records.code (records : t.Records cfg o) (env : Env) (seat : Fin SEAT_NUM) (call : Nat) :
    t.code cfg env j seat call = cellCode (o.claim (j, seat)).byte ∨
      t.code cfg env j seat call = -1 := by
  unfold Tables.code
  rw [records.byte (j, seat)]
  split
  · exact .inr rfl
  · exact .inl rfl

theorem Records.code_of_succeeds (records : t.Records cfg o) (succeeds : env.Succeeds)
    (seat : Fin SEAT_NUM) :
    t.code cfg env j seat = fun _ => cellCode (o.claim (j, seat)).byte := by
  funext call
  unfold Tables.code
  rw [World.fails_of_succeeds succeeds, World.fails_of_succeeds succeeds, records.byte (j, seat)]
  rfl

/-- The choice of a seat that is not the client's. -/
theorem matches_choose (records : t.Records cfg o) (on : t.On cfg i j) (seat : Fin SEAT_NUM)
    (other : o.claim (j, seat) ≠ .chosen i) :
    Matches cfg t i j
      (reactChoose (t.requestP i) (t.recordP i) seat fun _ => cellCode (o.claim (j, seat)).byte) o
      (o.ask i (t.recordP i).shiftId j seat) := by
  unfold reactChoose Office.ask
  cases claim : o.claim (j, seat) with
  | free =>
    have marked : (t.edit i (cfg.trains j)
        (.mark (t.requestP i) (t.recordP i) seat .CHOSEN 1 '2')).Records cfg
          (o.assign (j, seat) (.chosen i)) := by
      rw [edit_mark]
      exact records.mark on (.inl claim) (.inl ⟨rfl, rfl⟩) 1
    have record : (t.edit i (cfg.trains j)
        (.mark (t.requestP i) (t.recordP i) seat .CHOSEN 1 '2')).recordP i =
          (Edit.mark (t.requestP i) (t.recordP i) seat .CHOSEN 1 '2').record := by
      simp [edit]
    have info := marked.info (i := i) (j := j) rfl (by rw [edit_mark, mark_on]; exact on)
    rw [record] at info
    refine ⟨marked.tell i _, ?_⟩
    rw [if_pos (show cellCode Claim.free.byte = 0 from rfl)]
    dsimp only
    rw [info]
    rfl
  | chosen client =>
    have different : client ≠ i := by
      rintro rfl
      exact other claim
    dsimp only
    rw [if_neg different]
    exact matches_same records _
  | locked => exact matches_same records _
  | paid client => exact matches_same records _
  | sold => exact matches_same records _

theorem matches_cancel (records : t.Records cfg o) (on : t.On cfg i j) (seat : Fin SEAT_NUM)
    (own : o.claim (j, seat) = .chosen i) :
    Matches cfg t i j (reactCancel (t.requestP i) (t.recordP i) seat) o
      (o.ask i (t.recordP i).shiftId j seat) := by
  have marked : (t.edit i (cfg.trains j)
      (.mark (t.requestP i) (t.recordP i) seat .UNKNOWN (-1) '0')).Records cfg
        (o.assign (j, seat) .free) := by
    rw [edit_mark]
    exact records.mark on (.inr own) (.inr ⟨rfl, rfl⟩) (-1)
  have record : (t.edit i (cfg.trains j)
      (.mark (t.requestP i) (t.recordP i) seat .UNKNOWN (-1) '0')).recordP i =
        (Edit.mark (t.requestP i) (t.recordP i) seat .UNKNOWN (-1) '0').record := by
    simp [edit]
  have info := marked.info (i := i) (j := j) rfl (by rw [edit_mark, mark_on]; exact on)
  rw [record] at info
  unfold reactCancel Office.ask
  rw [own]
  dsimp only
  rw [if_pos rfl]
  refine ⟨marked.tell i _, ?_⟩
  rw [info]
  rfl

theorem matches_pay (records : t.Records cfg o) (on : t.On cfg i j)
    (seat : (t.requestP i).status = .SEAT)
    (count : (t.recordP i).numOfChosenSeats = (t.recordP i).chosen) :
    Matches cfg t i j (reactPay (t.requestP i) (t.recordP i)) o
      (o.pay i (t.recordP i).shiftId j) := by
  have desk := records.seats seat on
  have none : (t.recordP i).numOfChosenSeats = 0 ↔ ¬ ∃ seat, o.claim (j, seat) = .chosen i := by
    rw [count, Int.natCast_eq_zero, Record.chosen_eq_zero]
    constructor
    · rintro unchosen ⟨seat, held⟩
      exact unchosen seat seat.isLt ((records.chosen i _).mp held).2
    · intro nobody k bound held
      exact nobody ⟨⟨k, bound⟩, (records.chosen i (j, ⟨k, bound⟩)).mpr ⟨on, held⟩⟩
  unfold reactPay Office.pay
  by_cases some : ∃ seat, o.claim (j, seat) = .chosen i
  · rw [if_pos some, if_neg (mt none.mp (not_not.mpr some))]
    have paid := records.pay desk some
    have edited : t.edit i (cfg.trains j) ((Edit.same (t.requestP i) (t.recordP i)).payTurns SEAT_NUM) =
        t.payTurns i (cfg.trains j) SEAT_NUM := edit_payTurns SEAT_NUM
    have record : (t.payTurns i (cfg.trains j) SEAT_NUM).recordP i =
        ((Edit.same (t.requestP i) (t.recordP i)).payTurns SEAT_NUM).record := by
      rw [← edited]
      simp [edit]
    have info := paid.info (i := i) (j := j) payTurns_shiftId (by
      unfold On
      rw [payTurns_same.2]
      exact on)
    rw [record] at info
    refine ⟨?_, ?_⟩
    · dsimp only
      rw [edited]
      exact paid.tell i _
    · dsimp only
      rw [info]
      rfl
  · rw [if_neg some, if_pos (none.mpr some), records.info rfl on]
    exact matches_same records _

variable (env) in
/-- A line at the seats is answered as at the office, unless a call fails. Then it may end the
connection without a word. -/
theorem reaction_matches (records : t.Records cfg o)
    (count : (t.recordP i).numOfChosenSeats = (t.recordP i).chosen)
    (status : (t.requestP i).status = .SEAT ∨ (t.requestP i).status = .BOOKED)
    (on : t.On cfg i j) (range : t.SeatOrNone i) (train : Fin TRAIN_NUM) :
    Matches cfg t i j (t.reaction cfg env i j) o (o.serve i (t.requestP i).buf train) ∨
      (¬ env.Succeeds ∧ t.reaction cfg env i j = (.ended, [])) := by
  unfold reaction react Office.serve
  by_cases exits : (t.requestP i).buf = "exit".toList
  · rw [if_pos exits, if_pos exits]
    exact .inl (matches_ended records _)
  rw [if_neg exits, if_neg exits]
  rcases status with seat | booked
  · have notBooked : (t.requestP i).status ≠ .BOOKED := by simp [seat]
    rw [if_neg notBooked, records.seats seat on]
    dsimp only
    by_cases pays : (t.requestP i).buf = "pay".toList
    · rw [if_pos pays, if_pos pays]
      exact .inl (matches_pay records on seat count)
    rw [if_neg pays, if_neg pays]
    obtain ⟨low, high⟩ := range ⟨seat, exits, pays⟩
    by_cases none : atoi (t.requestP i).buf = 0
    · have unnamed : seatOf (t.requestP i).buf = Option.none := dif_neg (by omega)
      rw [if_pos none, unnamed]
      exact .inl (matches_ended records _)
    · have named : 1 ≤ atoi (t.requestP i).buf ∧ atoi (t.requestP i).buf ≤ SEAT_NUM := by omega
      have found : seatOf (t.requestP i).buf =
          some ⟨(atoi (t.requestP i).buf - 1).toNat, seatOf_lt named⟩ := dif_pos named
      rw [if_neg none, found]
      generalize number : (⟨(atoi (t.requestP i).buf - 1).toNat, seatOf_lt named⟩ : Fin SEAT_NUM) =
        wanted
      have index : (atoi (t.requestP i).buf - 1).toNat = wanted := by rw [← number]
      rw [index]
      dsimp only
      have mine := records.chosen i (j, wanted)
      by_cases own : o.claim (j, wanted) = .chosen i
      · rw [if_pos (mine.mp own).2]
        exact .inl (matches_cancel records on wanted own)
      · rw [if_neg fun held => own (mine.mpr ⟨on, held⟩)]
        have chosen := matches_choose records on wanted own
        rcases reactChoose_failing (q := t.requestP i) (r := t.recordP i) (k := wanted)
          (records.code (j := j) env wanted) with same | ended
        · rw [same]
          exact .inl chosen
        · by_cases succeeds : env.Succeeds
          · rw [records.code_of_succeeds succeeds]
            exact .inl chosen
          · exact .inr ⟨succeeds, ended⟩
  · rw [if_pos booked, records.booked booked on]
    dsimp only
    by_cases again : (t.requestP i).buf = "seat".toList
    · rw [if_pos again, if_pos again, records.info rfl on]
      refine .inl ⟨?_, rfl⟩
      have same : t.edit i (cfg.trains j)
          (.same { t.requestP i with status := .SEAT } (t.recordP i)) = t.setStatus i .SEAT := by
        simp [edit, Edit.same, TrainFile.stores, Tables.setStatus, setRequest]
      rw [same]
      exact (records.again (records.booked booked on)).tell i _
    · rw [if_neg again, if_neg again]
      exact .inl (matches_ended records _)

end Tables

/-! ## What a shift selection is answered -/

/-- From `w` to `t` connection `i` selected a shift. -/
inductive Selected (cfg : Config) (w t : World) (i : Nat) : Prop where
  | bound {j : Fin TRAIN_NUM} (looked : w.readTrainNum = j)
      (room : '0' ∈ (w.files (cfg.trains j)).bytes)
      (books : t.settle = w.settle.bind i (atoi (w.requestP i).buf) (cfg.trains j))
      (sent : t.sent = w.sent ++ [printTrainInfo (t.recordP i), writeSeatMsg].map
        fun text => ((w.requestP i).connFd, text)) : Selected cfg w t i
  | refused (books : t.settle = w.settle)
      (sent : t.sent = w.sent ++ [fullMsg, writeShiftMsg].map
        fun text => ((w.requestP i).connFd, text)) : Selected cfg w t i
  | silent (books : t.settle = w.settle) (sent : t.sent = w.sent) : Selected cfg w t i
  | ended (books : t.settle = w.settle.closeConn i) (sent : t.sent = w.sent) : Selected cfg w t i

namespace World

variable {cfg : Config} {env : Env} {w t : World} {i : Nat} {j : Fin TRAIN_NUM}

variable (cfg env w) in
theorem occupied_sent (call : Nat) (fd : Int) : (w.occupied cfg env call fd).1.sent = w.sent := by
  have locked : (w.setLock cfg fd true).sent = w.sent := setLock_sent w fd true
  unfold occupied
  dsimp only
  split
  · exact locked
  · rw [setLock_sent, lseek_sent]
    exact locked

variable (cfg env w) in
/-- What `occupied` finds free is a byte of the file. -/
theorem mem_of_occupied (call : Nat) (fd : Int) (found : (w.occupied cfg env call fd).2 = 0) :
    '0' ∈ (w.files fd).bytes := by
  have same : ((w.setLock cfg fd true).files fd).bytes = (w.files fd).bytes :=
    Tables.bytes_of_settle (setLock_settle cfg w fd true) fd
  unfold occupied at found
  dsimp only at found
  by_cases failed : env.fails .occupiedRead call = true
  · rw [if_pos failed] at found
    cases found
  rw [if_neg failed] at found
  have contained : (cstr ((w.setLock cfg fd true).read fd 1023).2).contains '0' = true := by
    by_contra absent
    rw [if_neg absent] at found
    cases found
  have member := (List.takeWhile_prefix _).subset (List.contains_iff_mem.mp contained)
  rw [← same]
  exact List.mem_of_mem_drop (List.mem_of_mem_take member)

variable (cfg env) in
/-- A shift selection binds the connection to a train with a free seat, refuses the shift, or goes
without an answer. -/
theorem handleShift_selected (line : (w.requestP i).buf ∈ shiftIds) :
    Selected cfg w (w.handleShift cfg env i) i := by
  unfold handleShift
  rw [if_neg (not_not.mpr line)]
  dsimp only
  split
  · exact .silent rfl rfl
  rename_i fd found
  have looked : ∃ j : Fin TRAIN_NUM, w.readTrainNum = j ∧ fd = cfg.trains j := by
    by_cases inside : 0 ≤ w.readTrainNum ∧ w.readTrainNum < TRAIN_NUM
    · obtain ⟨j, same⟩ := exists_train inside
      have known := cfg.trainFd_train j
      rw [← same] at known
      exact ⟨j, same, Option.some.inj (found.symm.trans known)⟩
    · have missing := cfg.trainFd_outside inside
      unfold Tables.readTrainNum at missing
      rw [missing] at found
      cases found
  obtain ⟨j, looked, rfl⟩ := looked
  have first := occupied_settle cfg env (w.log
    (.train (atoi (w.requestP w.connFd).buf - TRAIN_ID_START))) 0 (cfg.trains j)
  have quiet := occupied_sent cfg env (w.log
    (.train (atoi (w.requestP w.connFd).buf - TRAIN_ID_START))) 0 (cfg.trains j)
  have room := mem_of_occupied cfg env (w.log
    (.train (atoi (w.requestP w.connFd).buf - TRAIN_ID_START))) 0 (cfg.trains j)
  generalize (w.log (.train (atoi (w.requestP w.connFd).buf - TRAIN_ID_START))).occupied cfg env 0
    (cfg.trains j) = called at first quiet room ⊢
  obtain ⟨t₁, code₁⟩ := called
  have same₁ : t₁.settle = w.settle := first
  have sent₁ : t₁.sent = w.sent := quiet
  dsimp only at room ⊢
  by_cases refused : code₁ ≠ 0
  · rw [if_pos refused]
    refine .refused same₁ ?_
    simp [send, sent₁, Tables.requestP_of_settle same₁]
  rw [if_neg refused]
  have second := (occupied_settle cfg env t₁ 1 (cfg.trains j)).trans same₁
  have quiet₂ := (occupied_sent cfg env t₁ 1 (cfg.trains j)).trans sent₁
  generalize t₁.occupied cfg env 1 (cfg.trains j) = called at second quiet₂ ⊢
  obtain ⟨t₂, code₂⟩ := called
  have same₂ : t₂.settle = w.settle := second
  have sent₂ : t₂.sent = w.sent := quiet₂
  dsimp only
  by_cases free : code₂ = 0
  · rw [if_pos free]
    refine .bound looked (room (not_not.mp refused)) ?_ ?_
    · rw [settle_bound, same₂, Tables.requestP_of_settle same₂]
    · simp [send, sendInfo, setStatus, setRequest, setRecord, sent₂,
        Tables.requestP_of_settle same₂, Tables.recordP_of_settle same₂]
  rw [if_neg free]
  have third := (occupied_settle cfg env t₂ 2 (cfg.trains j)).trans same₂
  have quiet₃ := (occupied_sent cfg env t₂ 2 (cfg.trains j)).trans sent₂
  generalize t₂.occupied cfg env 2 (cfg.trains j) = called at third quiet₃ ⊢
  obtain ⟨t₃, code₃⟩ := called
  have same₃ : t₃.settle = w.settle := third
  have sent₃ : t₃.sent = w.sent := quiet₃
  dsimp only
  by_cases failed : code₃ = -1
  · rw [if_pos failed]
    exact .ended (Tables.closeConn_of_settle same₃ i) sent₃
  · rw [if_neg failed]
    exact .silent same₃ sent₃

/-- With its calls succeeding a shift selection is refused exactly if the file has no `'0'`. -/
theorem handleShift_exact (succeeds : env.Succeeds) (line : (w.requestP i).buf ∈ shiftIds)
    (looked : w.readTrainNum = j) (rest : (w.files (cfg.trains j)).Rest) :
    if (w.files (cfg.trains j)).full then
      (w.handleShift cfg env i).settle = w.settle ∧
        (w.handleShift cfg env i).sent = w.sent ++ [fullMsg, writeShiftMsg].map
          fun text => ((w.requestP i).connFd, text)
    else
      (w.handleShift cfg env i).settle =
          w.settle.bind i (atoi (w.requestP i).buf) (cfg.trains j) ∧
        (w.handleShift cfg env i).sent =
          w.sent ++ [printTrainInfo ((w.handleShift cfg env i).recordP i), writeSeatMsg].map
            fun text => ((w.requestP i).connFd, text) := by
  have found : cfg.trainFd (atoi (w.requestP w.connFd).buf - TRAIN_ID_START) =
      some (cfg.trains j : Int) := by
    change cfg.trainFd w.readTrainNum = _
    rw [looked]
    exact cfg.trainFd_train j
  have first := occupied_ok (w := w.log
    (.train (atoi (w.requestP w.connFd).buf - TRAIN_ID_START))) succeeds 0 rest
  have again := occupied_ok (w := (w.log
    (.train (atoi (w.requestP w.connFd).buf - TRAIN_ID_START))).log (.seek (cfg.trains j) 0))
    succeeds 1 rest
  unfold handleShift
  rw [if_neg (not_not.mpr line)]
  dsimp only
  rw [found]
  dsimp only
  rw [first]
  dsimp only
  by_cases full : (w.files (cfg.trains j)).full = true
  · have taken : ((w.log (.train (atoi (w.requestP w.connFd).buf - TRAIN_ID_START))).files
        (cfg.trains j)).full = true := full
    rw [if_pos full, if_pos taken, if_pos (show (1 : Int) ≠ 0 by decide)]
    exact ⟨rfl, by simp [send, log]⟩
  · have open₁ : ¬ ((w.log (.train (atoi (w.requestP w.connFd).buf - TRAIN_ID_START))).files
        (cfg.trains j)).full = true := full
    have open₂ : ¬ (((w.log (.train (atoi (w.requestP w.connFd).buf - TRAIN_ID_START))).log
        (.seek (cfg.trains j) 0)).files (cfg.trains j)).full = true := full
    rw [if_neg full, if_neg open₁, if_neg (by decide), again]
    dsimp only
    rw [if_neg open₂, if_pos rfl]
    refine ⟨rfl, ?_⟩
    simp [send, sendInfo, setStatus, setRequest, setRecord, log]

end World

/-! ## Steps -/

theorem readTrain_lt (n : Int) : n.toNat % TRAIN_NUM < TRAIN_NUM := Nat.mod_lt _ (by decide)

/-- The train that a shift selection looks up. -/
def Tables.readTrain (t : Tables) : Fin TRAIN_NUM :=
  ⟨t.readTrainNum.toNat % TRAIN_NUM, readTrain_lt _⟩

theorem Tables.readTrain_of_looked {t : Tables} {j : Fin TRAIN_NUM} (looked : t.readTrainNum = j) :
    t.readTrain = j := by
  have small : (j : Nat) % TRAIN_NUM = j := Nat.mod_eq_of_lt j.isLt
  apply Fin.ext
  simp [Tables.readTrain, looked, small]

namespace World

/-- The visit that a step is. -/
def visit (w : World) (action : Action) : Visit :=
  match w.received action with
  | some (u, i) => .line i (u.requestP i).buf u.readTrain
  | none =>
      match action with
      | .accept fd => .arrive fd
      | .timeout i => .leave i
      | .recv i _ _ => .leave i

/-- The server is in a state of the office. -/
structure Represents (cfg : Config) (w : World) (o : Office) : Prop where
  records : w.settle.Records cfg o
  sent : w.sent = o.sent.map fun message => ((message.1 : Int), message.2)

variable {cfg : Config} {env : Env} {w t : World} {i : Nat} {j : Fin TRAIN_NUM} {o o' : Office}

/-- Connection `i` is told what the office tells client `i`. -/
theorem Represents.next (represents : w.Represents cfg o) (records : t.settle.Records cfg o')
    {texts : List (List Char)} (told : o'.sent = o.sent ++ texts.map fun text => (i, text))
    {conn : Int} (own : texts ≠ [] → conn = i)
    (sent : t.sent = w.sent ++ texts.map fun text => (conn, text)) : t.Represents cfg o' where
  records := records
  sent := by
    rw [sent, told, List.map_append, List.map_map, represents.sent]
    congr 1
    by_cases silent : texts = []
    · rw [silent]
      rfl
    · rw [own silent]
      rfl

theorem represents_bound (represents : w.Represents cfg o) (conn : (w.requestP i).connFd = i)
    (fresh : w.recordP i = initRecord) (shift : (w.requestP i).status = .SHIFT)
    (line : (w.requestP i).buf ∈ shiftIds) (free : ∃ seat, o.claim (j, seat) = .free)
    (books : t.settle = w.settle.bind i (atoi (w.requestP i).buf) (cfg.trains j))
    (sent : t.sent = w.sent ++ [printTrainInfo (t.recordP i), writeSeatMsg].map
      fun text => ((w.requestP i).connFd, text)) :
    t.Represents cfg (o.serve i (w.requestP i).buf j) := by
  have exits : (w.requestP i).buf ≠ "exit".toList := by
    intro exits
    rw [exits] at line
    exact absurd line (by decide +kernel)
  have records : t.settle.Records cfg (o.sit i (.seats (atoi (w.requestP i).buf) j)) := by
    rw [books]
    exact represents.records.bind fresh _
  have record : t.settle.recordP i =
      { w.settle.recordP i with
        shiftId := atoi (w.requestP i).buf, trainFd := cfg.trains j } := by
    rw [books, Tables.bind_record]
  have info := records.info (i := i) (j := j) (congrArg Record.shiftId record)
    (congrArg Record.trainFd record)
  unfold Office.serve
  rw [if_neg exits, represents.records.shift shift]
  dsimp only
  unfold Office.select
  rw [if_neg (not_not.mpr line), if_pos free]
  dsimp only
  refine represents.next (records.tell i _) rfl (fun _ => conn) ?_
  rw [sent, ← info]
  rfl

/-- A free byte is one of a free seat. -/
theorem free_of_mem (ruled : w.settle.Ruled cfg) (records : w.settle.Records cfg o)
    (room : '0' ∈ (w.files (cfg.trains j)).bytes) : ∃ seat, o.claim (j, seat) = .free := by
  obtain ⟨k, bound, seat | other⟩ := (ruled j).mem room
  · refine ⟨⟨k, bound⟩, ?_⟩
    have byte := (records.byte (j, ⟨k, bound⟩)).symm.trans seat
    cases claim : o.claim (j, ⟨k, bound⟩) with
    | free => rfl
    | chosen client => simp [claim, Claim.byte] at byte
    | paid client => simp [claim, Claim.byte] at byte
    | locked => simp [claim, Claim.byte] at byte
    | sold => simp [claim, Claim.byte] at byte
  · exact absurd other.symm (separator_ne (by decide) (by decide) k)

/-- `occupied` sees whether a seat is free. -/
theorem full_iff_claims (ruled : w.settle.Ruled cfg) (records : w.settle.Records cfg o) :
    (w.files (cfg.trains j)).full = true ↔ ¬ ∃ seat, o.claim (j, seat) = .free := by
  have cell : ∀ seat : Fin SEAT_NUM, (w.files (cfg.trains j)).cell seat =
      some (o.claim (j, seat)).byte := fun seat => records.byte (j, seat)
  have grid : Ruled (w.files (cfg.trains j)).bytes := ruled j
  rw [TrainFile.full_iff grid]
  · constructor
    · rintro taken ⟨seat, free⟩
      exact taken seat seat.isLt (by rw [cell, free]; rfl)
    · intro none k bound zero
      have mem : '0' ∈ (w.files (cfg.trains j)).bytes := List.mem_iff_getElem?.mpr ⟨_, zero⟩
      exact none (free_of_mem ruled records mem)
  · intro k bound nul
    rw [cell ⟨k, bound⟩] at nul
    cases claim : o.claim (j, ⟨k, bound⟩) <;> simp [claim, Claim.byte] at nul

/-- What the books say in every state of a run. -/
structure Ordered (cfg : Config) (w : World) : Prop where
  sound : w.settle.Sound cfg
  seated : w.settle.Seated cfg
  tallied : w.settle.Tallied
  ruled : w.settle.Ruled cfg

/-- The calls of the line succeed on train files at rest, and it looks up one of the trains. -/
def Regular (cfg : Config) (env : Env) (w : World) (i : Nat) : Prop :=
  (∀ j, (w.files (cfg.trains j)).Rest) ∧ env.Succeeds ∧ w.TrainInRange i

/-- What is left to show of a line: some visits lead to an office that is represented, and they
are the line itself if it is regular. -/
def Visited (cfg : Config) (env : Env) (w t : World) (i : Nat) (o : Office) : Prop :=
  ∃ visits o', office.run o visits = some o' ∧ t.Represents cfg o' ∧
    (w.Regular cfg env i → visits = [.line i (w.requestP i).buf w.readTrain])

/-- The line is a visit. -/
theorem visited_line (here : o.desk i ≠ .away)
    (represents : t.Represents cfg (o.serve i (w.requestP i).buf w.readTrain)) :
    w.Visited cfg env t i o := by
  refine ⟨[.line i (w.requestP i).buf w.readTrain], _, ?_, represents, fun _ => rfl⟩
  rw [Machine.run_singleton]
  exact if_neg here

/-- The connection ends without a word. -/
theorem visited_leave (represents : w.Represents cfg o) (here : o.desk i ≠ .away)
    (books : t.settle = w.settle.closeConn i) (sent : t.sent = w.sent)
    (irregular : ¬ w.Regular cfg env i) : w.Visited cfg env t i o := by
  refine ⟨[.leave i], o.leave i, ?_, ⟨?_, sent.trans represents.sent⟩,
    fun regular => absurd regular irregular⟩
  · rw [Machine.run_singleton]
    exact if_neg here
  · rw [books]
    exact represents.records.closeConn i

/-- A shift selection is a visit, or is refused, or brings the end of the connection. -/
theorem shift_visited (ordered : w.Ordered cfg) (represents : w.Represents cfg o)
    (conn : (w.requestP i).connFd = i) (shift : (w.requestP i).status = .SHIFT)
    (line : (w.requestP i).buf ∈ shiftIds) :
    w.Visited cfg env (w.handleShift cfg env i) i o := by
  have desk := represents.records.shift shift
  have here : o.desk i ≠ .away := by simp [desk]
  have fresh : w.recordP i = initRecord := ordered.sound.fresh i (by simp [shift])
  have refused : ∀ {t : World}, t.settle = w.settle →
      t.sent = w.sent ++ [fullMsg, writeShiftMsg].map (fun text => ((w.requestP i).connFd, text)) →
        t.Represents cfg (o.tell i [fullMsg, writeShiftMsg]) := by
    intro t books sent
    refine represents.next ?_ rfl (fun _ => conn) sent
    rw [books]
    exact represents.records.tell i _
  by_cases regular : w.Regular cfg env i
  · obtain ⟨rest, succeeds, inside⟩ := regular
    obtain ⟨j, looked⟩ := exists_train (inside ⟨shift, line⟩)
    have exact' := handleShift_exact succeeds line looked (rest j)
    apply visited_line here
    rw [Tables.readTrain_of_looked looked]
    by_cases full : (w.files (cfg.trains j)).full = true
    · rw [if_pos full] at exact'
      have taken := (full_iff_claims ordered.ruled represents.records).mp full
      have exits : (w.requestP i).buf ≠ "exit".toList := by
        intro exits
        rw [exits] at line
        exact absurd line (by decide +kernel)
      unfold Office.serve
      rw [if_neg exits, desk]
      dsimp only
      unfold Office.select
      rw [if_neg (not_not.mpr line), if_neg taken]
      exact refused exact'.1 exact'.2
    · rw [if_neg full] at exact'
      have free := not_not.mp (mt (full_iff_claims ordered.ruled represents.records).mpr full)
      exact represents_bound represents conn fresh shift line free exact'.1 exact'.2
  · rcases handleShift_selected (w := w) (i := i) cfg env line with
      ⟨looked, room, books, sent⟩ | ⟨books, sent⟩ | ⟨books, sent⟩ | ⟨books, sent⟩
    · apply visited_line here
      rw [Tables.readTrain_of_looked looked]
      have free := free_of_mem ordered.ruled represents.records room
      exact represents_bound represents conn fresh shift line free books sent
    · refine ⟨[.refuse i], _, ?_, refused books sent, fun holds => absurd holds regular⟩
      rw [Machine.run_singleton]
      exact if_pos desk
    · refine ⟨[], o, rfl, ⟨?_, sent.trans represents.sent⟩, fun holds => absurd holds regular⟩
      rw [books]
      exact represents.records
    · exact visited_leave represents here books sent regular

/-- A line whose client is told so ends its connection. -/
theorem represents_ended (represents : w.Represents cfg o) (conn : (w.requestP i).connFd = i)
    (text : List Char) : ((w.send i text).closeConn i).Represents cfg ((o.tell i [text]).leave i) := by
  refine represents.next ((represents.records.tell i [text]).closeConn i) rfl
    (fun _ => conn) ?_
  rfl

/-- Every line is a visit, unless its calls fail or it looks up no train. -/
theorem line_visited (ordered : w.Ordered cfg) (represents : w.Represents cfg o)
    (running : w.halt = none) (live : w.Live cfg i) (conn : (w.requestP i).connFd = i)
    (range : w.SeatOrNone i) (kept : ¬ w.Slips i) :
    w.Visited cfg env (w.handleLine cfg env i) i o := by
  have valid : (w.requestP i).status ≠ .INVALID := (ordered.sound.live i).mpr live
  have here : o.desk i ≠ .away := mt represents.records.away.mp valid
  by_cases shift : (w.requestP i).status = .SHIFT
  · have desk := represents.records.shift shift
    by_cases exits : (w.requestP i).buf = "exit".toList
    · apply visited_line here
      unfold handleLine Office.serve
      rw [if_pos exits, if_pos exits]
      exact represents_ended represents conn exitMsg
    by_cases line : (w.requestP i).buf ∈ shiftIds
    · rw [handleLine_shiftLine ⟨shift, line⟩]
      exact shift_visited ordered represents conn shift line
    · apply visited_line here
      unfold handleLine Office.serve
      rw [if_neg exits, if_neg exits, shift, desk]
      dsimp only
      unfold handleShift Office.select
      rw [if_pos line, if_pos line]
      exact represents_ended represents conn invalidOpMsg
  · have status : (w.requestP i).status = .SEAT ∨ (w.requestP i).status = .BOOKED := by
      cases state : (w.requestP i).status with
      | INVALID => exact absurd state valid
      | SHIFT => exact absurd state shift
      | SEAT => exact .inl rfl
      | BOOKED => exact .inr rfl
    obtain ⟨j, on⟩ := ordered.sound.bound i status
    have did : Did w (w.handleLine cfg env i) i (cfg.trains j) (w.reaction cfg env i j) :=
      handleLine_did running live.1 status on range kept
    rcases Tables.reaction_matches env represents.records (ordered.tallied.count i) status on range
      w.readTrain with matched | ⟨fails, ended⟩
    · apply visited_line here
      refine represents.next ?_ matched.sent (fun _ => conn) did.sent
      rw [did.books]
      exact matched.records
    · have reaction : w.reaction cfg env i j = (.ended, []) := ended
      rw [reaction] at did
      refine visited_leave represents here ?_ (did.sent.trans (List.append_nil _))
        fun regular => fails regular.2.1
      rw [did.books, Tables.edit_ended]

end World

end NTUSP.Server
