import Mathlib.Data.List.TakeWhile
import NTUSP.Server.Seats

/-!
# The read server

`server.c` compiled with `READ_SERVER`, on the tables and files of the write server. The
content of a train file is whatever other programs make it between two requests, of any
length. The read of a train file may fail; positioning it at its start does not.

The file that a request is answered with, and the client that is prompted, are those of
the connection accepted last. A request is answered as it should be exactly when that is
the connection it came from, the read succeeds and the file is a text that one read takes.
-/

namespace NTUSP.Server

open NTUSP.Library CString

def readShiftMsg : List Char :=
  "Please select the shift you want to check [902001-902005]: ".toList

/-- The size of `trainInfo`, less the byte that ends the text. -/
def TRAIN_INFO_LEN : Nat := 1023

namespace World

/-- `main` behind a successful `handle_read`, which has stored the line. -/
def handleReadLine (cfg : Config) (w : World) (i : Nat) (fails : Bool) : World :=
  if (w.requestP i).buf = "exit".toList then (w.send i exitMsg).closeConn i
  else if (w.requestP i).buf ∉ shiftIds then (w.send i invalidOpMsg).closeConn i
  else
    let readTrainNum := atoi (w.requestP w.connFd).buf - TRAIN_ID_START
    let w := w.log (.train readTrainNum)
    match cfg.trainFd readTrainNum with
    | none => w.stop .outOfBounds
    | some fd =>
        let w := w.setLock cfg fd true
        if fails then w.closeConn i
        else
          let (w, trainInfo) := w.read fd TRAIN_INFO_LEN
          let w := (w.lseek cfg fd 0 false).1
          let w := w.setLock cfg fd false
          (w.send i (cstr trainInfo)).send w.connFd readShiftMsg

/-- `accept_conn` and the greeting. -/
def acceptReader (w : World) (fd : Nat) : World :=
  let w :=
    { w.setRequest fd { w.requestP fd with connFd := fd, status := .SHIFT } with connFd := fd }
  (w.send fd welcomeBanner).send fd readShiftMsg

/-- Another program changes the content of a train file. -/
def rewrite (cfg : Config) (w : World) (j : Fin TRAIN_NUM) (bytes : List Char) : World :=
  w.setFile (cfg.trains j) { w.files (cfg.trains j) with bytes := bytes }

end World

/-- What the kernel, the clients and the other programs do next. -/
inductive ReadAction where
  | accept (fd : Nat)
  | timeout (i : Nat)
  | recv (i : Nat) (chunk : List Char) (fails : Bool)
  | rewrite (j : Fin TRAIN_NUM) (bytes : List Char)
  deriving DecidableEq

/-- One step of the read server; `none` when it has ended or the action is not possible. -/
def World.readStep (cfg : Config) (w : World) (action : ReadAction) : Option World :=
  if w.halt.isSome then none
  else
    match action with
    | .accept fd => if w.Free cfg fd then some (w.acceptReader fd) else none
    | .timeout i => if w.Live cfg i then some (w.closeConn i) else none
    | .recv i chunk fails =>
        if w.Live cfg i ∧ chunk.length ≤ MAX_MSG_LEN then
          match handleRead chunk with
          | .eof => some (w.closeConn i)
          | .line text => some ((w.store i text).handleReadLine cfg i fails)
          | .overrun => none
        else none
    | .rewrite j bytes => some (w.rewrite cfg j bytes)

/-- The read server on the content of the train files. -/
def readMachine (cfg : Config) (heap : Nat → List Char) (disk : Fin TRAIN_NUM → List Char) :
    Machine World ReadAction where
  Initial w := w = World.initServer cfg heap disk
  step w action := w.readStep cfg action

/-! ## What is asked and what is answered -/

/-- The client of connection `i` sends the shift id of train `j`. -/
def ReadAction.Asks (action : ReadAction) (i : Nat) (j : Fin TRAIN_NUM) : Prop :=
  ∃ chunk fails text, action = .recv i chunk fails ∧ handleRead chunk = .line text ∧
    shiftIds[(j : Nat)]? = some text

/-- All that has been written to a descriptor. -/
def heard (sent : List (Int × List Char)) (fd : Int) : List Char :=
  (sent.filter fun message => message.1 = fd).flatMap fun message => message.2

/-- Connection `i` receives the content of its train and the prompt, and no other client
receives anything. -/
structure Routed (cfg : Config) (w t : World) (i : Nat) (j : Fin TRAIN_NUM) : Prop where
  own : heard t.sent i = heard w.sent i ++ ((w.files (cfg.trains j)).bytes ++ readShiftMsg)
  others : ∀ k, w.Live cfg k → k ≠ i → heard t.sent k = heard w.sent k

/-- A file that one read takes and that is printed to its end. -/
structure TrainFile.Printable (f : TrainFile) : Prop where
  fits : f.bytes.length ≤ TRAIN_INFO_LEN
  text : '\x00' ∉ f.bytes

/-- The read of a request succeeds. -/
def ReadAction.readSucceeds : ReadAction → Prop
  | .recv _ _ fails => fails = false
  | _ => True

/-- Connection `i` is the one accepted last, its train file can be printed and is read. -/
structure AsksAlone (cfg : Config) (w : World) (action : ReadAction) (i : Nat)
    (j : Fin TRAIN_NUM) : Prop where
  last : w.connFd = i
  printable : (w.files (cfg.trains j)).Printable
  succeeds : action.readSucceeds

/-! ## Between two requests -/

/-- The connection accepted last is open, or its slot has been cleared since. -/
def Tables.Attached (cfg : Config) (t : Tables) : Prop :=
  t.Live cfg t.connFd ∨ t.requestP t.connFd = freeRequest

/-- The train files are rewound, every slot that is in use is that of its descriptor, and the
connection accepted last is known as soon as there is one. -/
structure Tables.Greeted (cfg : Config) (t : Tables) : Prop where
  rewound : ∀ j, (t.files (cfg.trains j)).offset = 0
  listening : (t.requestP cfg.listenFd).connFd = cfg.listenFd
  slots : ∀ k, (t.requestP k).connFd = -1 ∨ (t.requestP k).connFd = k
  attached : (∃ k, t.Live cfg k) → t.Attached cfg

@[simp] theorem heard_append (sent more : List (Int × List Char)) (fd : Int) :
    heard (sent ++ more) fd = heard sent fd ++ heard more fd := by
  simp [heard]

/-- What one read takes is printed as the whole file exactly if the file is a short text. -/
theorem cstr_take_eq_iff (f : TrainFile) :
    cstr (f.bytes.take TRAIN_INFO_LEN) = f.bytes ↔ f.Printable := by
  constructor
  · intro whole
    constructor
    · have shorter := (List.takeWhile_sublist (· ≠ '\x00')
        (l := f.bytes.take TRAIN_INFO_LEN)).length_le
      unfold cstr at whole
      rw [whole, List.length_take] at shorter
      omega
    · intro ends
      rw [← whole] at ends
      simpa using List.mem_takeWhile_imp ends
  · intro printable
    rw [List.take_of_length_le printable.fits, cstr, List.takeWhile_eq_self_iff]
    intro c member
    have other : c ≠ '\x00' := fun ends => printable.text (ends ▸ member)
    simpa using other

namespace Tables.Greeted

variable {cfg : Config} {t u : Tables} {i : Nat}

theorem init (cfg : Config) (heap : Nat → List Char) (disk : Fin TRAIN_NUM → List Char) :
    (World.initServer cfg heap disk).Greeted cfg where
  rewound _ := rfl
  listening := by simp [World.initServer]
  slots k := by
    by_cases same : k = cfg.listenFd <;> simp [World.initServer, same]
  attached := by
    rintro ⟨k, _, connected, other⟩
    simp [World.initServer, other] at connected

/-- Whatever leaves the slots alone and every train file rewound. -/
theorem of_same (greeted : t.Greeted cfg) (requests : u.requestP = t.requestP)
    (last : u.connFd = t.connFd) (rewound : ∀ j, (u.files (cfg.trains j)).offset = 0) :
    u.Greeted cfg where
  rewound := rewound
  listening := by
    rw [requests]
    exact greeted.listening
  slots := by
    rw [requests]
    exact greeted.slots
  attached := by
    unfold Attached Live
    rw [requests, last]
    exact greeted.attached

/-- Storing a line keeps every slot in use in use. -/
theorem store (greeted : t.Greeted cfg) (live : t.Live cfg i) (text : List Char) :
    (t.store i text).Greeted cfg := by
  have conn : ∀ k, ((t.store i text).requestP k).connFd = (t.requestP k).connFd := by
    intro k
    by_cases same : k = i <;> simp [Tables.store, setRequest, same]
  refine ⟨greeted.rewound, ?_, fun k => ?_, fun _ => ?_⟩
  · rw [conn]
    exact greeted.listening
  · rw [conn]
    exact greeted.slots k
  · have last : (t.store i text).connFd = t.connFd := rfl
    unfold Attached Live
    rw [last, conn]
    rcases greeted.attached ⟨i, live⟩ with stays | cleared
    · exact .inl stays
    · by_cases same : t.connFd = i
      · rw [← same] at live
        exact absurd (congrArg Request.connFd cleared) live.2.1
      · right
        simp [Tables.store, setRequest, same, cleared]

/-- The slot of a connection that ends is cleared. -/
theorem closeConn (greeted : t.Greeted cfg) (live : t.Live cfg i) :
    (t.closeConn i).Greeted cfg where
  rewound := greeted.rewound
  listening := by
    have other := live.2.2.symm
    simp [Tables.closeConn, setRequest, setRecord, other, greeted.listening]
  slots k := by
    by_cases same : k = i
    · simp [Tables.closeConn, setRequest, same, freeRequest]
    · simpa [Tables.closeConn, setRequest, setRecord, same] using greeted.slots k
  attached _ := by
    have last : (t.closeConn i).connFd = t.connFd := rfl
    unfold Attached Live
    rw [last]
    by_cases same : t.connFd = i
    · right
      simp [Tables.closeConn, setRequest, same]
    · simpa [Tables.closeConn, setRequest, setRecord, same, Attached, Live] using
        greeted.attached ⟨i, live⟩

/-- A new connection is the one accepted last. -/
theorem acceptConn (greeted : t.Greeted cfg) (free : t.Free cfg i) :
    (t.acceptConn i).Greeted cfg := by
  have other : i ≠ cfg.listenFd := by
    rintro rfl
    have closed := free.2.1
    rw [greeted.listening] at closed
    omega
  have positive : (i : Int) ≠ -1 := by omega
  refine ⟨greeted.rewound, ?_, fun k => ?_, fun _ => .inl ?_⟩
  · simp [Tables.acceptConn, setRequest, other.symm, greeted.listening]
  · by_cases same : k = i
    · simp [Tables.acceptConn, setRequest, same]
    · simpa [Tables.acceptConn, setRequest, same] using greeted.slots k
  · simp [Tables.acceptConn, setRequest, Live, free.1, positive, other]

end Tables.Greeted

namespace World

variable {cfg : Config} {w t : World} {i k : Nat} {j : Fin TRAIN_NUM}

/-- A shift request is not answered: it asks for no train, or the read fails. Otherwise its
client is sent the text of the file that is looked up, and the connection accepted last is
prompted. -/
theorem handleReadLine_sent (fails : Bool) (rewound : ∀ j, (w.files (cfg.trains j)).offset = 0)
    (line : (w.requestP i).buf ∈ shiftIds) :
    (w.handleReadLine cfg i fails).sent = w.sent ∧
        (fails = true ∨ ∀ j : Fin TRAIN_NUM, w.readTrainNum ≠ j) ∨
      fails = false ∧ ∃ j : Fin TRAIN_NUM, w.readTrainNum = j ∧
        (w.handleReadLine cfg i fails).sent = w.sent ++
          [((w.requestP i).connFd, cstr ((w.files (cfg.trains j)).bytes.take TRAIN_INFO_LEN)),
            ((w.requestP w.connFd).connFd, readShiftMsg)] := by
  have stays : (w.requestP i).buf ≠ "exit".toList := by
    intro exits
    rw [exits] at line
    exact absurd line (by decide)
  unfold handleReadLine
  rw [if_neg stays, if_neg (not_not.mpr line)]
  dsimp only
  by_cases inside : 0 ≤ w.readTrainNum ∧ w.readTrainNum < TRAIN_NUM
  · obtain ⟨j, looked⟩ := exists_train inside
    have index : atoi (w.requestP w.connFd).buf - TRAIN_ID_START = j := looked
    rw [index, cfg.trainFd_train j]
    cases fails with
    | false =>
      refine .inr ⟨rfl, j, looked, ?_⟩
      simp [setLock, read, lseek, setFile, log, send, rewound j]
    | true =>
      refine .inl ⟨?_, .inl rfl⟩
      simp [setLock, setFile, log, closeConn, setRequest, setRecord]
  · have index : atoi (w.requestP w.connFd).buf - TRAIN_ID_START = w.readTrainNum := rfl
    rw [index, cfg.trainFd_outside inside]
    exact .inl ⟨rfl, .inr fun j looked => inside (by omega)⟩

/-- A line leaves the connections as they are or ends its own, and rewinds what it reads. -/
theorem handleReadLine_tables (i : Nat) (fails : Bool)
    (rewound : ∀ j, (w.files (cfg.trains j)).offset = 0) :
    ∃ u : Tables, u.requestP = w.requestP ∧ u.connFd = w.connFd ∧
      (∀ j, (u.files (cfg.trains j)).offset = 0) ∧
      ((w.handleReadLine cfg i fails).toTables = u ∨
        (w.handleReadLine cfg i fails).toTables = u.closeConn i) := by
  unfold handleReadLine
  split
  · exact ⟨w.toTables, rfl, rfl, rewound, .inr rfl⟩
  split
  · exact ⟨w.toTables, rfl, rfl, rewound, .inr rfl⟩
  dsimp only
  by_cases inside : 0 ≤ w.readTrainNum ∧ w.readTrainNum < TRAIN_NUM
  · obtain ⟨j, looked⟩ := exists_train inside
    have index : atoi (w.requestP w.connFd).buf - TRAIN_ID_START = j := looked
    rw [index, cfg.trainFd_train j]
    have again : ∀ (f : TrainFile) (k : Fin TRAIN_NUM), f.offset = 0 →
        (Function.update w.files (cfg.trains j) f (cfg.trains k)).offset = 0 := by
      intro f k start
      by_cases same : (cfg.trains k : Int) = cfg.trains j
      · rw [same, Function.update_self, start]
      · rw [Function.update_of_ne same, rewound k]
    cases fails with
    | false =>
      refine ⟨_, ?_, ?_, fun k => ?_, .inl rfl⟩
      · simp [setLock, read, lseek, setFile, log, send]
      · simp [setLock, read, lseek, setFile, log, send]
      · simpa [setLock, read, lseek, setFile, log, send] using again _ k rfl
    | true =>
      refine ⟨(w.setLock cfg (cfg.trains j) true).toTables, ?_, ?_, fun k => ?_, .inr ?_⟩
      · simp [setLock, setFile]
      · simp [setLock, setFile]
      · have held := again { w.files (cfg.trains j) with locked := true } k (rewound j)
        simpa [setLock, setFile] using held
      · simp [setLock, setFile, log, closeConn, setRequest, setRecord, Tables.closeConn,
          Tables.setRequest, Tables.setRecord]
  · have index : atoi (w.requestP w.connFd).buf - TRAIN_ID_START = w.readTrainNum := rfl
    rw [index, cfg.trainFd_outside inside]
    exact ⟨w.toTables, rfl, rfl, rewound, .inl rfl⟩

/-- A step of the read server keeps what holds between two requests. -/
theorem greeted_readStep {action : ReadAction} (greeted : w.Greeted cfg)
    (transition : w.readStep cfg action = some t) : t.Greeted cfg := by
  unfold readStep at transition
  split at transition
  · cases transition
  cases action with
  | accept fd =>
    dsimp only at transition
    split at transition
    · rename_i free
      cases transition
      exact greeted.acceptConn free
    · cases transition
  | timeout i =>
    dsimp only at transition
    split at transition
    · rename_i live
      cases transition
      exact greeted.closeConn live
    · cases transition
  | recv i chunk fails =>
    dsimp only at transition
    split at transition
    · rename_i live
      split at transition
      · cases transition
        exact greeted.closeConn live.1
      · rename_i text _
        cases transition
        have stored : (w.store i text).Greeted cfg := greeted.store live.1 text
        obtain ⟨u, requests, last, rewound, same | ended⟩ :=
          handleReadLine_tables i fails stored.rewound
        · rw [same]
          exact stored.of_same requests last rewound
        · rw [ended]
          have still : u.Greeted cfg := stored.of_same requests last rewound
          refine still.closeConn ?_
          unfold Tables.Live
          rw [requests]
          simpa [store, setRequest, Tables.Live] using live.1
      · cases transition
    · cases transition
  | rewrite j bytes =>
    cases transition
    refine greeted.of_same rfl rfl fun k => ?_
    by_cases same : (cfg.trains k : Int) = cfg.trains j
    · simp [rewrite, setFile, same, greeted.rewound j]
    · simp [rewrite, setFile, same, greeted.rewound k]

/-- The shift id of a train is one the server accepts. -/
theorem shiftIds_get {text : List Char} (shift : shiftIds[(j : Nat)]? = some text) :
    text ∈ shiftIds ∧ atoi text - TRAIN_ID_START = j := by
  have shifts : ∀ j : Fin TRAIN_NUM, ∀ text ∈ shiftIds[(j : Nat)]?,
      atoi text - TRAIN_ID_START = j := by
    decide +kernel
  exact ⟨List.mem_of_getElem? shift, shifts j text shift⟩

/-- What a step does about a request for train `j`. -/
theorem readStep_asks {action : ReadAction} (asks : action.Asks i j)
    (transition : w.readStep cfg action = some t) :
    w.Live cfg i ∧ ∃ fails text, text ∈ shiftIds ∧ atoi text - TRAIN_ID_START = j ∧
      (action.readSucceeds ↔ fails = false) ∧ t = (w.store i text).handleReadLine cfg i fails := by
  obtain ⟨chunk, fails, text, rfl, line, shift⟩ := asks
  obtain ⟨accepted, own⟩ := shiftIds_get shift
  unfold readStep at transition
  split at transition
  · cases transition
  dsimp only at transition
  split at transition
  · rename_i live
    rw [line] at transition
    cases transition
    exact ⟨live.1, fails, text, accepted, own, Iff.rfl, rfl⟩
  · cases transition

/-- When a train is looked up for another connection than the one that asks, that other
connection is open. -/
theorem live_last (greeted : w.Greeted cfg) (live : w.Live cfg i) {text : List Char}
    (older : w.connFd ≠ i) (looked : (w.store i text).readTrainNum = j) :
    w.Live cfg w.connFd ∧ ((w.store i text).requestP w.connFd).connFd = w.connFd := by
  rcases greeted.attached ⟨i, live⟩ with open' | cleared
  · have slot := (greeted.slots w.connFd).resolve_left open'.2.1
    exact ⟨open', by simpa [store, setRequest, older] using slot⟩
  · unfold Tables.readTrainNum at looked
    have zero : atoi freeRequest.buf - TRAIN_ID_START = -902001 := by decide
    simp [store, setRequest, older, cleared, zero] at looked

/-- A request between two others is answered as it should be exactly if it comes from the
connection accepted last and its file is read and printed whole. -/
theorem routed_iff_asksAlone {action : ReadAction} (greeted : w.Greeted cfg)
    (asks : action.Asks i j) (transition : w.readStep cfg action = some t) :
    Routed cfg w t i j ↔ AsksAlone cfg w action i j := by
  obtain ⟨live, fails, text, accepted, own, succeeds, rfl⟩ := readStep_asks asks transition
  have stored : (w.store i text).Greeted cfg := greeted.store live text
  have buf : ((w.store i text).requestP i).buf = text := by simp [store, setRequest]
  have mine : ((w.store i text).requestP i).connFd = i := by
    have slot := (greeted.slots i).resolve_left live.2.1
    simpa [store, setRequest] using slot
  have sent : (w.store i text).sent = w.sent := rfl
  have last : (w.store i text).connFd = w.connFd := rfl
  have files : (w.store i text).files = w.files := rfl
  have prompts : readShiftMsg ≠ [] := by decide
  have line : ((w.store i text).requestP i).buf ∈ shiftIds := by rw [buf]; exact accepted
  rcases handleReadLine_sent fails stored.rewound line with
    ⟨same, reason⟩ | ⟨read, j', looked, more⟩
  · -- nothing is sent at all
    constructor
    · intro routed
      have own := routed.own
      rw [same, sent, List.self_eq_append_right, List.append_eq_nil_iff] at own
      exact absurd own.2 prompts
    · intro alone
      rcases reason with failed | unknown
      · rw [succeeds.mp alone.succeeds] at failed
        cases failed
      · refine absurd ?_ (unknown j)
        unfold Tables.readTrainNum
        rw [last, alone.last, buf, own]
  rw [mine, last, files] at more
  by_cases newest : w.connFd = i
  · -- the file and the prompt go to the client that asked
    have train : j' = j := by
      unfold Tables.readTrainNum at looked
      rw [last, newest, buf, own] at looked
      exact Fin.ext (by omega)
    subst train
    rw [newest, mine] at more
    constructor
    · intro routed
      refine ⟨newest, ?_, succeeds.mpr read⟩
      have own := routed.own
      rw [more, heard_append, sent] at own
      rw [← cstr_take_eq_iff]
      simpa [heard] using own
    · intro alone
      have whole := (cstr_take_eq_iff _).mpr alone.printable
      constructor
      · rw [more, heard_append, sent, whole]
        simp [heard]
      · intro k _ other
        have apart : (i : Int) ≠ k := by omega
        rw [more, heard_append, sent]
        simp [heard, apart]
  · -- another client is prompted
    obtain ⟨prompted, slot⟩ := live_last greeted live newest looked
    refine ⟨fun routed => ?_, fun alone => absurd alone.last newest⟩
    have apart : (i : Int) ≠ w.connFd := by omega
    have quiet := routed.others w.connFd prompted newest
    rw [more, heard_append, sent, List.append_right_eq_self, slot] at quiet
    refine absurd ?_ prompts
    simpa [heard, apart] using quiet

end World

/-! ## Runs of the read server -/

variable {cfg : Config} {heap : Nat → List Char} {disk : Fin TRAIN_NUM → List Char}

theorem greeted_reached {guard : World → ReadAction → Prop} {w : World}
    (reached : (readMachine cfg heap disk).Reach guard w) : w.Greeted cfg := by
  refine reached.invariant (fun w => w.Greeted cfg) ?_ ?_
  · rintro w rfl
    exact .init cfg heap disk
  · intro w action t _ greeted _ transition
    exact World.greeted_readStep greeted transition

/-- The requests of a run are all answered as they should be exactly if each of them comes
from the connection accepted last and has its file read and printed whole. -/
theorem all_routed_iff_askAlone {w : World} {run : List (World × ReadAction)}
    (reached : (readMachine cfg heap disk).tracing.Reach (fun state => Machine.anyStep state.1)
      (w, run)) :
    (∀ v action i j t, (v, action) ∈ run → action.Asks i j → v.readStep cfg action = some t →
        Routed cfg v t i j) ↔
      ∀ v action i j, (v, action) ∈ run → action.Asks i j → AsksAlone cfg v action i j := by
  constructor
  · intro routed v action i j member asks
    obtain ⟨earlier, _, t, transition⟩ := reached.of_mem_trace member
    exact (World.routed_iff_asksAlone (greeted_reached earlier) asks transition).mp
      (routed v action i j t member asks transition)
  · intro alone v action i j t member asks transition
    obtain ⟨earlier, _, _⟩ := reached.of_mem_trace member
    exact (World.routed_iff_asksAlone (greeted_reached earlier) asks transition).mpr
      (alone v action i j member asks)

/-- The read server on free trains. -/
def smallReader : Machine World ReadAction :=
  readMachine smallConfig (fun _ => []) fun _ => freeTrain

/-- Connection `i` sends a line, and its train file can be read. -/
def asks (i : Nat) (text : String) : ReadAction := .recv i (text.toList ++ ['\n']) false

/-- What a step of a run shows of the state before it. -/
def seenBefore (step : World × ReadAction) : Nat × Bool × ReadAction :=
  (step.1.connFd,
    decide (∀ j, (step.1.files (smallConfig.trains j)).bytes = freeTrain), step.2)

theorem freeTrain_printable {f : TrainFile} (free : f.bytes = freeTrain) : f.Printable where
  fits := by
    rw [free]
    decide +kernel
  text := by
    rw [free]
    decide +kernel

/-- Two clients, each of which asks before the next connects. -/
theorem routed_in_turn :
    ∃ w run, smallReader.tracing.Reach (fun state => Machine.anyStep state.1) (w, run) ∧
      run.map Prod.snd = [.accept 9, asks 9 "902003", .accept 10, asks 10 "902001"] ∧
      ∀ v action i j t, (v, action) ∈ run → action.Asks i j →
        v.readStep smallConfig action = some t → Routed smallConfig v t i j := by
  have ran : (smallReader.tracing.exec (fun _ _ => true) (smallStart, [])
      [.accept 9, asks 9 "902003", .accept 10, asks 10 "902001"]).map
        (fun state => state.2.map seenBefore) =
      some [(0, true, .accept 9), (9, true, asks 9 "902003"), (9, true, .accept 10),
        (10, true, asks 10 "902001")] := by
    decide +kernel
  obtain ⟨⟨w, run⟩, runs, seen⟩ := Option.map_eq_some_iff.mp ran
  have start : smallReader.tracing.Initial (smallStart, []) := ⟨rfl, rfl⟩
  have reached : smallReader.tracing.Reach (fun state => Machine.anyStep state.1) (w, run) :=
    Machine.Reach.exec (fun _ _ _ => trivial) (.initial start) runs
  refine ⟨w, run, reached, Machine.exec_tracing runs, ?_⟩
  refine (all_routed_iff_askAlone reached).mpr fun v action i j member asked => ?_
  have shown := List.mem_map_of_mem (f := seenBefore) member
  rw [show run.map seenBefore = _ from seen] at shown
  obtain ⟨chunk, fails, text, rfl, _, _⟩ := asked
  simp only [seenBefore, asks, List.mem_cons, Prod.mk.injEq, reduceCtorEq, and_false, false_or,
    ReadAction.recv.injEq, List.not_mem_nil, or_false, decide_eq_true_eq] at shown
  rcases shown with ⟨last, free, rfl, _, succeeds⟩ | ⟨last, free, rfl, _, succeeds⟩
  · exact ⟨last, freeTrain_printable (free j), succeeds⟩
  · exact ⟨last, freeTrain_printable (free j), succeeds⟩

/-- Two clients connect, and the older one asks for train 902001. It does not get the file and the
prompt, or others get something as well. -/
theorem older_client_not_routed :
    ∃ w, smallReader.Reach Machine.anyStep w ∧
      ∃ t, w.readStep smallConfig (asks 9 "902001") = some t ∧
        (asks 9 "902001").Asks 9 ⟨0, by decide⟩ ∧ ¬ Routed smallConfig w t 9 ⟨0, by decide⟩ := by
  have ran : (smallReader.exec (fun _ _ => true) smallStart [.accept 9, .accept 10]).map
      (fun w => (w.connFd, (w.readStep smallConfig (asks 9 "902001")).isSome)) =
        some (10, true) := by
    decide +kernel
  obtain ⟨w, runs, seen⟩ := Option.map_eq_some_iff.mp ran
  have reached : smallReader.Reach Machine.anyStep w :=
    Machine.Reach.exec (fun _ _ _ => trivial) (.initial rfl) runs
  obtain ⟨newest, answered⟩ := Prod.mk.inj seen
  obtain ⟨t, transition⟩ := Option.isSome_iff_exists.mp answered
  have asked : (asks 9 "902001").Asks 9 ⟨0, by decide⟩ := by
    exact ⟨_, _, "902001".toList, rfl, rfl, rfl⟩
  refine ⟨w, reached, t, transition, asked, fun routed => ?_⟩
  have alone := (World.routed_iff_asksAlone (greeted_reached reached) asked transition).mp routed
  rw [alone.last] at newest
  cases newest

end NTUSP.Server
