import NTUSP.Server.Sections
import NTUSP.Library.Claims
import Mathlib.Data.Fintype.Basic

/-!
# Servers that share the train files

Each process has its own tables and descriptors, and works on the bytes on disk. A step is
what a process does up to its next section, one section, or a change of its records between
two of them. So a step of another process may come in between any two sections, also while a
failed call holds a lock.
-/

namespace NTUSP.Server

open NTUSP.Library CString

namespace World

/-- The process finds what is on disk. -/
def mount (cfg : Config) (w : World) (disk : Fin TRAIN_NUM → List Char) : World :=
  { w with
    files := fun fd =>
      (cfg.trainOf fd).elim (w.files fd) fun j => { w.files fd with bytes := disk j } }

/-- What the process leaves on disk. -/
def disk (cfg : Config) (w : World) : Fin TRAIN_NUM → List Char := fun j =>
  (w.files (cfg.trains j)).bytes

/-- A step of `main` up to its first section. -/
def begin (cfg : Config) (w : World) (action : Action) : Option (World × Phase) :=
  if w.halt.isSome then none
  else
    match action with
    | .accept fd => if w.Free cfg fd then some (w.acceptConn fd, .idle) else none
    | .timeout i => if w.Live cfg i then some (w.closeConn i, .idle) else none
    | .recv i chunk env =>
        if w.Live cfg i ∧ chunk.length ≤ MAX_MSG_LEN then
          match handleRead chunk with
          | .eof => some (w.closeConn i, .idle)
          | .line text => some ((w.store i text).beginLine cfg env i)
          | .overrun => none
        else none

end World

/-- A server process. -/
structure Proc where
  world : World
  phase : Phase

/-- Server processes on the same train files. -/
structure Shared (Process : Type) where
  disk : Fin TRAIN_NUM → List Char
  proc : Process → Proc

/-- Which process goes on, and with which request. -/
inductive SharedAction (Process : Type) where
  | serve (p : Process) (action : Action)
  | proceed (p : Process)

namespace Shared

variable {Process : Type} [DecidableEq Process]

/-- A process has gone on to `next`. -/
def put (cfg : Process → Config) (s : Shared Process) (p : Process) (next : World × Phase) :
    Shared Process where
  disk := next.1.disk (cfg p)
  proc := Function.update s.proc p ⟨next.1, next.2⟩

/-- The tables of a process with the bytes on disk. -/
def mounted (cfg : Process → Config) (s : Shared Process) (p : Process) : World :=
  (s.proc p).world.mount (cfg p) s.disk

def step (cfg : Process → Config) (s : Shared Process) : SharedAction Process → Option (Shared Process)
  | .serve p action =>
      if (s.proc p).phase = .idle then
        ((s.mounted cfg p).begin (cfg p) action).map (s.put cfg p)
      else none
  | .proceed p =>
      if (s.proc p).phase = .idle then none
      else some (s.put cfg p ((s.mounted cfg p).proceed (cfg p) (s.proc p).phase))

/-- Every process has opened the train files. -/
def start (cfg : Process → Config) (heap : Process → Nat → List Char)
    (disk : Fin TRAIN_NUM → List Char) : Shared Process where
  disk := disk
  proc p := { world := World.initServer (cfg p) (heap p) disk, phase := .idle }

end Shared

/-- The processes on the content of the train files. -/
def sharedMachine {Process : Type} [DecidableEq Process] (cfg : Process → Config)
    (heap : Process → Nat → List Char) (disk : Fin TRAIN_NUM → List Char) :
    Machine (Shared Process) (SharedAction Process) where
  Initial s := s = Shared.start cfg heap disk
  step s action := s.step cfg action

/-! ## The claims of the processes -/

/-- A seat of a train. -/
abbrev Cell : Type := Fin TRAIN_NUM × Fin SEAT_NUM

/-- The entry of a record as a mark on the cell. -/
def Seat.mark : Seat → Claims.Mark
  | .UNKNOWN => .free
  | .CHOSEN => .claimed
  | .PAID => .settled

/-- The byte of a cell. -/
def markByte : Claims.Mark → Char
  | .free => '0'
  | .claimed => '2'
  | .settled => '1'

theorem Seat.mark_eq_free {seat : Seat} : seat.mark = .free ↔ seat = .UNKNOWN := by
  cases seat <;> simp [Seat.mark]

theorem markByte_injective : Function.Injective markByte := by
  intro first second same
  cases first <;> cases second <;> first | rfl | exact absurd same (by decide)

/-- Connection `i` goes on with the seat that `bookNum` names. -/
structure Serves (cfg : Config) (w : World) (i : Nat) (bookNum trainFd : Int) (c : Cell) : Prop where
  status : (w.requestP i).status = .SEAT
  on : w.On cfg i c.1
  train : trainFd = cfg.trains c.1
  index : bookNum - 1 = (c.2 : Nat)

/-- Connection `i` pays for its seats on the train. -/
structure Pays (cfg : Config) (w : World) (i : Nat) (trainFd : Int) (j : Fin TRAIN_NUM) : Prop where
  status : (w.requestP i).status = .SEAT ∨ (w.requestP i).status = .BOOKED
  on : w.On cfg i j
  train : trainFd = cfg.trains j

/-- The tables fit what the process does next, and what it is about to write. -/
def Phase.Fits (cfg : Config) (w : World) (pending : Option (Cell × Claims.Mark)) : Phase → Prop
  | .idle => pending = none
  | .occupied i _ _ fd =>
      pending = none ∧ (w.requestP i).status = .SHIFT ∧ ∃ j, fd = cfg.trains j
  | .checkCurr i _ _ bookNum trainFd => pending = none ∧ ∃ c, Serves cfg w i bookNum trainFd c
  | .take i bookNum trainFd =>
      pending = none ∧ ∃ c, Serves cfg w i bookNum trainFd c ∧
        ∀ i', w.On cfg i' c.1 → (w.recordP i').seatStat c.2 = .UNKNOWN
  | .takeStore i bookNum trainFd =>
      ∃ c, Serves cfg w i bookNum trainFd c ∧ pending = some (c, .claimed)
  | .cancelStore i bookNum trainFd =>
      ∃ c, Serves cfg w i bookNum trainFd c ∧ pending = some (c, .free)
  | .pay i trainFd _ => pending = none ∧ ∃ j, Pays cfg w i trainFd j
  | .payStore i trainFd k =>
      ∃ c : Cell, Pays cfg w i trainFd c.1 ∧ k = c.2 ∧ pending = some (c, .settled)

/-- A process stands where the claims have it. -/
structure Stands (cfg : Config) (w : World) (phase : Phase) (mark : Nat → Cell → Claims.Mark)
    (pending : Option (Cell × Claims.Mark)) : Prop where
  sound : w.settle.Sound cfg
  running : phase ≠ .idle → w.halt = none
  on : ∀ i c, w.On cfg i c.1 → mark i c = ((w.recordP i).seatStat c.2).mark
  off : ∀ i c, ¬ w.On cfg i c.1 → mark i c = .free
  fits : phase.Fits cfg w pending

/-- The cells are on disk. -/
def Stored (disk : Fin TRAIN_NUM → List Char) (cell : Cell → Claims.Mark) : Prop :=
  ∀ c : Cell, (disk c.1)[2 * (c.2 : Nat)]? = some (markByte (cell c))

/-- The processes and the disk are as the claims have them. -/
structure Represents {Process : Type} (cfg : Process → Config) (s : Shared Process)
    (claims : Claims.State Process (Process × Nat) Cell) : Prop where
  stored : Stored s.disk claims.cell
  stands : ∀ p, Stands (cfg p) (s.proc p).world (s.proc p).phase (fun i => claims.mark (p, i))
    (claims.pending p)

end NTUSP.Server
