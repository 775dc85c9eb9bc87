import NTUSP.Library.CString
import NTUSP.Library.Machine
import Mathlib.Data.Fintype.Basic
import Mathlib.Logic.Function.Basic

/-!
# The write server

`server.c` compiled with `WRITE_SERVER`. A step is one `accept`, one timeout, or one
`read` of a client with everything `main` does about it before it looks at the next
client. The elapsed time is not kept: any connection may time out at any step.

System calls fail on bad arguments, as `lseek` does on a negative offset. Calls on the
train files inside `occupied` and `checkCurr` may also fail for another reason, which
the environment of the step decides; `accept`, `fcntl` on a train file, the writes and
the `lseek`s around the store of a cell succeed. `trace` lists what the seat and train
arrays are indexed with and where the train files are positioned.
-/

namespace NTUSP.Server

open NTUSP.Library CString

def TRAIN_NUM : Nat := 5
def SEAT_NUM : Nat := 40
def TRAIN_ID_START : Int := 902001
def MAX_MSG_LEN : Nat := 512

inductive Status where
  | INVALID
  | SHIFT
  | SEAT
  | BOOKED
  deriving DecidableEq

inductive Seat where
  | UNKNOWN
  | CHOSEN
  | PAID
  deriving DecidableEq

/-- The value of the enumerator, as it is stored. -/
def Seat.toInt : Seat → Int
  | UNKNOWN => 0
  | CHOSEN => 1
  | PAID => 2

/-- `record`: three `int`s followed by the seats. -/
structure Record where
  shiftId : Int
  trainFd : Int
  numOfChosenSeats : Int
  seatStat : Nat → Seat

/-- `request`. The other fields are not read. -/
structure Request where
  connFd : Int
  buf : List Char
  status : Status

/-- An open train file: its content, and the offset and the lock of the descriptor. -/
structure TrainFile where
  bytes : List Char
  offset : Nat
  locked : Bool

/-- The descriptor numbers of the process. -/
structure Config where
  maxfd : Nat
  listenFd : Nat
  trains : Fin TRAIN_NUM → Nat
  distinct : Function.Injective trains

/-- An array index or a file position the program uses. -/
inductive Access where
  | train (index : Int)
  | seat (index : Int)
  | seek (fd offset : Int)
  deriving DecidableEq

/-- How the process ends: by `ERR_EXIT`, or by an access that is not its memory. -/
inductive Halt where
  | errExit
  | outOfBounds
  deriving DecidableEq

/-- The globals of the program and the train files. `connFd` is the local of `main`. -/
structure Tables where
  requestP : Nat → Request
  recordP : Nat → Record
  connFd : Nat
  files : Int → TrainFile

structure World extends Tables where
  sent : List (Int × List Char)
  trace : List Access
  halt : Option Halt

/-- Calls that may fail on valid arguments. -/
inductive Site where
  | occupiedRead
  | occupiedRewind
  | checkRewind
  | checkSeek
  | checkRead
  | checkRestore
  deriving DecidableEq

/-- What the environment decides about a step: which calls fail, counted within the step,
and what the uninitialised byte of `checkCurr` holds. -/
structure Env where
  failing : List (Site × Nat)
  junk : List Char
  deriving DecidableEq

namespace Env

def fails (env : Env) (site : Site) (call : Nat) : Bool := decide ((site, call) ∈ env.failing)

/-- Every call on valid arguments succeeds. -/
def Succeeds (env : Env) : Prop := env.failing = []

instance (env : Env) : Decidable env.Succeeds := by
  unfold Succeeds
  infer_instance

def quiet : Env := { failing := [], junk := [] }

end Env

def welcomeBanner : List Char :=
  ("======================================\n" ++
    " Welcome to CSIE Train Booking System \n" ++
    "======================================\n").toList

def lockMsg : List Char := ">>> Locked.\n".toList
def exitMsg : List Char := ">>> Client exit.\n".toList
def cancelMsg : List Char := ">>> You cancel the seat.\n".toList
def fullMsg : List Char := ">>> The shift is fully booked.\n".toList
def seatBookedMsg : List Char := ">>> The seat is booked.\n".toList
def noSeatMsg : List Char := ">>> No seat to pay.\n".toList
def bookSuccMsg : List Char := ">>> Your train booking is successful.\n".toList
def invalidOpMsg : List Char := ">>> Invalid operation.\n".toList

def writeShiftMsg : List Char :=
  "Please select the shift you want to book [902001-902005]: ".toList

def writeSeatMsg : List Char := "Select the seat [1-40] or type \"pay\" to confirm: ".toList

def writeSeatOrExitMsg : List Char :=
  "Type \"seat\" to continue or \"exit\" to quit [seat/exit]: ".toList

/-- The lines a connection in `SHIFT` may send. -/
def shiftIds : List (List Char) :=
  ["902001".toList, "902002".toList, "902003".toList, "902004".toList, "902005".toList]

instance (text : List Char) : Decidable (text ∈ shiftIds) := by
  unfold shiftIds
  infer_instance

/-- `init_record`. -/
def initRecord : Record where
  shiftId := -1
  trainFd := -1
  numOfChosenSeats := 0
  seatStat _ := .UNKNOWN

/-- `free_request`: the buffer is zeroed as well. -/
def freeRequest : Request where
  connFd := -1
  buf := []
  status := .INVALID

/-! ## `handle_read` -/

inductive ReadResult where
  | eof
  | line (text : List Char)
  | overrun

/-- `handle_read` on the bytes one `read` returned. Without a line end `p1` is null, and the
length computed from it is not one of the buffer. -/
def handleRead (chunk : List Char) : ReadResult :=
  if chunk.isEmpty then .eof
  else
    match strstr ['\r', '\n'] (cstr chunk) with
    | some p1 => .line ((cstr chunk).take p1)
    | none =>
        match strstr ['\n'] (cstr chunk) with
        | some p1 => .line ((cstr chunk).take p1)
        | none => if chunk.take 2 = ['\xff', '\xf4'] then .eof else .overrun

/-! ## `print_train_info` -/

/-- The numbers of the seats with a status, separated by commas. -/
def seatList (r : Record) (status : Seat) : List Char :=
  ((List.range SEAT_NUM).foldl
    (fun (first, text) i =>
      if r.seatStat i = status then
        (false, text ++ (if first then [] else [',']) ++ (toString (i + 1)).toList)
      else (first, text))
    (true, [])).2

def printTrainInfo (r : Record) : List Char :=
  "\nBooking info\n|- Shift ID: ".toList ++ (toString r.shiftId).toList ++
    "\n|- Chose seat(s): ".toList ++ seatList r .CHOSEN ++ "\n|- Paid: ".toList ++
    seatList r .PAID ++ "\n\n".toList

/-! ## The memory of `recordP` -/

/-- The words of a record, in the order of the structure. -/
def Record.word (r : Record) : Nat → Int
  | 0 => r.shiftId
  | 1 => r.trainFd
  | 2 => r.numOfChosenSeats
  | k + 3 => (r.seatStat k).toInt

def Record.setSeat (r : Record) (k : Nat) (seat : Seat) : Record :=
  { r with seatStat := Function.update r.seatStat k seat }

/-- A seat stored over any word of a record. -/
def Record.setWord (r : Record) (seat : Seat) : Nat → Record
  | 0 => { r with shiftId := seat.toInt }
  | 1 => { r with trainFd := seat.toInt }
  | 2 => { r with numOfChosenSeats := seat.toInt }
  | k + 3 => r.setSeat k seat

/-- The number of words of a record. -/
def WORDS : Nat := 3 + SEAT_NUM

/-- The word of the block at `recordP` that `recordP[i].seat_stat[index]` is. -/
def seatWord (cfg : Config) (i : Nat) (index : Int) : Option Nat :=
  let address := WORDS * i + 3 + index
  if 0 ≤ address ∧ address < WORDS * cfg.maxfd then some address.toNat else none

/-- What `checkCurr` makes of a cell. -/
def cellCode (cell : Char) : Int :=
  if cell = '0' then 0 else if cell = '1' then 1 else if cell = '2' then 2 else -1

/-- `row * 8 + col * 2`, with the division of C. -/
def seatOffset (index : Int) : Int := index.tdiv 4 * 8 + index.tmod 4 * 2

namespace TrainFile

/-- One byte at the offset; behind the end the gap reads as zeros. -/
def write (f : TrainFile) (c : Char) : TrainFile :=
  { f with
    bytes :=
      if f.offset < f.bytes.length then f.bytes.set f.offset c
      else f.bytes ++ List.replicate (f.offset - f.bytes.length) '\x00' ++ [c]
    offset := f.offset + 1 }

end TrainFile

namespace Config

/-- The descriptor is one of the train files. -/
def isTrain (cfg : Config) (fd : Int) : Bool := decide (∃ j, (cfg.trains j : Int) = fd)

/-- `trains[index].file_fd`. -/
def trainFd (cfg : Config) (index : Int) : Option Int :=
  if bounds : 0 ≤ index ∧ index.toNat < TRAIN_NUM then some (cfg.trains ⟨index.toNat, bounds.2⟩)
  else none

end Config

namespace World

def log (w : World) (access : Access) : World := { w with trace := w.trace ++ [access] }

def send (w : World) (i : Nat) (text : List Char) : World :=
  { w with sent := w.sent ++ [((w.requestP i).connFd, text)] }

def stop (w : World) (halt : Halt) : World := { w with halt := some halt }

def setRequest (w : World) (i : Nat) (r : Request) : World :=
  { w with requestP := Function.update w.requestP i r }

def setRecord (w : World) (i : Nat) (r : Record) : World :=
  { w with recordP := Function.update w.recordP i r }

def setFile (w : World) (fd : Int) (f : TrainFile) : World :=
  { w with files := Function.update w.files fd f }

def setStatus (w : World) (i : Nat) (status : Status) : World :=
  w.setRequest i { w.requestP i with status := status }

/-- `close`, `free_record` and `free_request`. -/
def closeConn (w : World) (i : Nat) : World :=
  (w.setRecord i initRecord).setRequest i freeRequest

/-- Print the booking info of connection `i`. -/
def sendInfo (w : World) (i : Nat) : World := w.send i (printTrainInfo (w.recordP i))

/-! ## Train files -/

/-- `lseek(fd, offset, SEEK_SET)` and whether it succeeds. -/
def lseek (cfg : Config) (w : World) (fd offset : Int) (fails : Bool) : World × Bool :=
  let w := w.log (.seek fd offset)
  if fails || !cfg.isTrain fd || decide (offset < 0) then (w, false)
  else (w.setFile fd { w.files fd with offset := offset.toNat }, true)

/-- `lock_file` and `unlock_file`. -/
def setLock (cfg : Config) (w : World) (fd : Int) (locked : Bool) : World :=
  if cfg.isTrain fd then w.setFile fd { w.files fd with locked := locked } else w.stop .errExit

/-- `read(fd, tbuf, count)`: the bytes, and the file behind them. -/
def read (w : World) (fd : Int) (count : Nat) : World × List Char :=
  let f := w.files fd
  let bytes := (f.bytes.drop f.offset).take count
  (w.setFile fd { f with offset := f.offset + bytes.length }, bytes)

/-- `occupied`, the `call`-th of the step. -/
def occupied (cfg : Config) (env : Env) (call : Nat) (w : World) (fd : Int) : World × Int :=
  let w := w.setLock cfg fd true
  if env.fails .occupiedRead call then (w, -1)
  else
    let (w, tbuf) := w.read fd 1023
    let w := (w.lseek cfg fd 0 (env.fails .occupiedRewind call)).1
    let w := w.setLock cfg fd false
    (w, if (cstr tbuf).contains '0' then 0 else 1)

/-- `checkCurr`, the `call`-th of the step; `none` when the process has ended. -/
def checkCurr (cfg : Config) (env : Env) (call : Nat) (w : World) (i : Nat) (checkNum : Int) :
    World × Option Int :=
  let fd := (w.recordP i).trainFd
  let w := (w.lseek cfg fd 0 (env.fails .checkRewind call)).1
  let w := w.setLock cfg fd true
  if w.halt.isSome then (w, none)
  else
    let (w, sought) := w.lseek cfg fd (seatOffset (checkNum - 1)) (env.fails .checkSeek call)
    if !sought then (w, some (-1))
    else if env.fails .checkRead call then (w, some (-1))
    else
      let (w, tbuf) := w.read fd 1
      let w := (w.lseek cfg fd 0 (env.fails .checkRestore call)).1
      let w := w.setLock cfg fd false
      (w, some (cellCode (tbuf.headD (env.junk.getD call '\x00'))))

/-- `addORcancel`; `none` when the seat is no memory of the process. -/
def addORcancel (cfg : Config) (w : World) (i : Nat) (seatINP : Int) : World × Option Int :=
  let w := w.log (.seat (seatINP - 1))
  match seatWord cfg i (seatINP - 1) with
  | none => (w.stop .outOfBounds, none)
  | some word =>
      if (w.recordP (word / WORDS)).word (word % WORDS) = Seat.CHOSEN.toInt then (w, some 0)
      else (w, some 1)

/-- `recordP[i].seat_stat[index] = seat`. -/
def setSeatStat (cfg : Config) (w : World) (i : Nat) (index : Int) (seat : Seat) : World :=
  let w := w.log (.seat index)
  match seatWord cfg i index with
  | none => w.stop .outOfBounds
  | some word =>
      w.setRecord (word / WORDS) ((w.recordP (word / WORDS)).setWord seat (word % WORDS))

/-- `recordP[i].num_of_chosen_seats += change`. -/
def addChosen (w : World) (i : Nat) (change : Int) : World :=
  w.setRecord i
    { w.recordP i with numOfChosenSeats := (w.recordP i).numOfChosenSeats + change }

/-- The code that stores one cell, which choose, cancel and pay each have a copy of. -/
def storeCell (cfg : Config) (w : World) (trainFd index : Int) (c : Char) : World :=
  let (w, sought) := w.lseek cfg trainFd (seatOffset index) false
  if !sought then w.stop .errExit
  else
    let w := w.setLock cfg trainFd true
    let w := w.setFile trainFd ((w.files trainFd).write c)
    let w := w.setLock cfg trainFd false
    (w.lseek cfg trainFd 0 false).1

/-! ## The commands of a client -/

/-- The state `SHIFT`. The train is looked up with the buffer of the connection accepted
last. -/
def handleShift (cfg : Config) (env : Env) (w : World) (i : Nat) : World :=
  if (w.requestP i).buf ∉ shiftIds then (w.send i invalidOpMsg).closeConn i
  else
    let readTrainNum := atoi (w.requestP w.connFd).buf - TRAIN_ID_START
    let w := w.log (.train readTrainNum)
    match cfg.trainFd readTrainNum with
    | none => w.stop .outOfBounds
    | some fd =>
        let (w, first) := w.occupied cfg env 0 fd
        if first ≠ 0 then (w.send i fullMsg).send i writeShiftMsg
        else
          let (w, second) := w.occupied cfg env 1 fd
          if second = 0 then
            let w := w.setRecord i
              { w.recordP i with shiftId := atoi (w.requestP i).buf, trainFd := fd }
            ((w.setStatus i .SEAT).sendInfo i).send i writeSeatMsg
          else
            let (w, third) := w.occupied cfg env 2 fd
            if third = -1 then w.closeConn i else w

/-- The state `BOOKED`. -/
def handleBooked (w : World) (i : Nat) : World :=
  if (w.requestP i).buf = "exit".toList then w.closeConn i
  else if (w.requestP i).buf = "seat".toList then
    ((w.setStatus i .SEAT).sendInfo i).send i writeSeatMsg
  else (w.send i invalidOpMsg).closeConn i

/-- One turn of the payment loop. -/
def payStep (cfg : Config) (i : Nat) (trainFd : Int) (w : World) (j : Nat) : World :=
  if w.halt.isSome then w
  else if (w.recordP i).seatStat j = .CHOSEN then
    let w := w.setRecord i ((w.recordP i).setSeat j .PAID)
    let w := w.setStatus i .BOOKED
    let w := w.addChosen i (-1)
    w.storeCell cfg trainFd j '1'
  else w

/-- `pay`. -/
def pay (cfg : Config) (w : World) (i : Nat) : World :=
  if (w.recordP i).numOfChosenSeats = 0 then
    ((w.send i noSeatMsg).sendInfo i).send i writeSeatMsg
  else
    let trainFd := (w.recordP i).trainFd
    let w := (w.lseek cfg trainFd 0 false).1
    let w := (List.range SEAT_NUM).foldl (payStep cfg i trainFd) w
    if w.halt.isSome then w
    else ((w.send i bookSuccMsg).sendInfo i).send i writeSeatOrExitMsg

/-- A seat that `checkCurr` reports as available becomes one of connection `i`. -/
def take (cfg : Config) (w : World) (i : Nat) (bookNum trainFd : Int) : World :=
  let w := w.setSeatStat cfg i (bookNum - 1) .CHOSEN
  if w.halt.isSome then w
  else
    let w := (w.addChosen i 1).storeCell cfg trainFd (bookNum - 1) '2'
    if w.halt.isSome then w else (w.sendInfo i).send i writeSeatMsg

/-- The branch of `addORcancel` 1 for a seat that is not 0. -/
def choose (cfg : Config) (env : Env) (w : World) (i : Nat) (bookNum trainFd : Int) : World :=
  match w.checkCurr cfg env 0 i bookNum with
  | (w, none) => w
  | (w, some first) =>
      if first = 0 then w.take cfg i bookNum trainFd
      else
        match w.checkCurr cfg env 1 i bookNum with
        | (w, none) => w
        | (w, some second) =>
            if second = 1 then (w.send i seatBookedMsg).send i writeSeatMsg
            else
              match w.checkCurr cfg env 2 i bookNum with
              | (w, none) => w
              | (w, some third) =>
                  if third = 2 then (w.send i lockMsg).send i writeSeatMsg else w.closeConn i

/-- The branch of `addORcancel` 0. -/
def cancel (cfg : Config) (w : World) (i : Nat) (bookNum trainFd : Int) : World :=
  let w := w.setSeatStat cfg i (bookNum - 1) .UNKNOWN
  if w.halt.isSome then w
  else
    let w := (w.addChosen i (-1)).storeCell cfg trainFd (bookNum - 1) '0'
    if w.halt.isSome then w else ((w.send i cancelMsg).sendInfo i).send i writeSeatMsg

/-- Any other line of a connection in `SEAT`. -/
def handleSeat (cfg : Config) (env : Env) (w : World) (i : Nat) : World :=
  let bookNum := atoi (w.requestP i).buf
  let trainFd := (w.recordP i).trainFd
  match w.addORcancel cfg i bookNum with
  | (w, none) => w
  | (w, some first) =>
      if first ≠ 0 then
        if bookNum = 0 then (w.send i invalidOpMsg).closeConn i
        else w.choose cfg env i bookNum trainFd
      else
        match w.addORcancel cfg i bookNum with
        | (w, none) => w
        | (w, some second) =>
            if second = 0 then w.cancel cfg i bookNum trainFd else w.send i writeSeatMsg

/-- `main` behind a successful `handle_read`, which has stored the line. -/
def handleLine (cfg : Config) (env : Env) (w : World) (i : Nat) : World :=
  if (w.requestP i).buf = "exit".toList then (w.send i exitMsg).closeConn i
  else
    match (w.requestP i).status with
    | .SHIFT => w.handleShift cfg env i
    | .BOOKED => w.handleBooked i
    | status =>
        if status = .SEAT ∧ (w.requestP i).buf = "pay".toList then w.pay cfg i
        else w.handleSeat cfg env i

/-- `accept_conn` and the greeting. -/
def acceptConn (w : World) (fd : Nat) : World :=
  let w :=
    { w.setRequest fd { w.requestP fd with connFd := fd, status := .SHIFT } with connFd := fd }
  (w.send fd welcomeBanner).send fd writeShiftMsg

end World

/-- What the kernel and the clients do next. -/
inductive Action where
  | accept (fd : Nat)
  | timeout (i : Nat)
  | recv (i : Nat) (chunk : List Char) (env : Env)

/-- A client is connected on descriptor `i`. -/
def Tables.Live (cfg : Config) (t : Tables) (i : Nat) : Prop :=
  i < cfg.maxfd ∧ (t.requestP i).connFd ≠ -1 ∧ i ≠ cfg.listenFd

/-- The descriptor may be the one of a new connection. -/
def Tables.Free (cfg : Config) (t : Tables) (fd : Nat) : Prop :=
  fd < cfg.maxfd ∧ (t.requestP fd).connFd = -1 ∧ cfg.isTrain fd = false

instance (cfg : Config) (t : Tables) (i : Nat) : Decidable (t.Live cfg i) := by
  unfold Tables.Live
  infer_instance

instance (cfg : Config) (t : Tables) (fd : Nat) : Decidable (t.Free cfg fd) := by
  unfold Tables.Free
  infer_instance

namespace World

/-- The line is in the buffer of the request. -/
def store (w : World) (i : Nat) (line : List Char) : World :=
  w.setRequest i { w.requestP i with buf := line }

/-- One step of the server; `none` when it has ended or the action is not possible. -/
def step (cfg : Config) (w : World) (action : Action) : Option World :=
  if w.halt.isSome then none
  else
    match action with
    | .accept fd => if w.Free cfg fd then some (w.acceptConn fd) else none
    | .timeout i => if w.Live cfg i then some (w.closeConn i) else none
    | .recv i chunk env =>
        if w.Live cfg i ∧ chunk.length ≤ MAX_MSG_LEN then
          match handleRead chunk with
          | .eof => some (w.closeConn i)
          | .line text => some ((w.store i text).handleLine cfg env i)
          | .overrun => none
        else none

/-- `init_server`. The request buffers are not initialised. -/
def initServer (cfg : Config) (heap : Nat → List Char) (disk : Fin TRAIN_NUM → List Char) :
    World where
  requestP i :=
    { connFd := if i = cfg.listenFd then i else -1, buf := heap i, status := .INVALID }
  recordP _ := initRecord
  connFd := 0
  files fd :=
    { bytes := ((List.finRange TRAIN_NUM).find? fun j => (cfg.trains j : Int) = fd).elim [] disk
      offset := 0
      locked := false }
  sent := []
  trace := []
  halt := none

end World

/-- The server on the content of the train files. -/
def machine (cfg : Config) (heap : Nat → List Char) (disk : Fin TRAIN_NUM → List Char) :
    Machine World Action where
  Initial w := w = World.initServer cfg heap disk
  step w action := w.step cfg action

end NTUSP.Server
