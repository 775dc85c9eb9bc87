import NTUSP.Library.Machine
import NTUSP.Library.Ring
import Mathlib.Logic.Function.Basic

/-!
# The user-level thread scheduler

`thread_tool.h`, `routine.c` and `scheduler.c`. A `struct tcb *` is the id of its
thread: `thread_setup` allocates one tcb per id, and 0 is the idle thread. A thread
runs until its next `thread_yield` or `longjmp(sched_buf, _)` without being
interrupted, since both signals stay blocked elsewhere, so one step runs the current
thread from its resume point to there. The action says whether a signal is pending
at that yield. `sleep(1)` and the alarm only pass time, which no step looks at.
-/

namespace NTUSP.Threads

open NTUSP.Library

/-- The capacity of the queues. -/
def THREAD_MAX : Nat := 100

/-- The function a thread was created with. -/
inductive Routine where
  | fibonacci
  | pm
  | enroll
  | idle
  deriving DecidableEq

/-- Where `longjmp(env, 1)` resumes a thread: after the `setjmp` of `thread_setup`, of a
`thread_yield` (numbered within its routine), or inside `read_lock` or `write_lock`. -/
inductive Env where
  | setup
  | yield (k : Nat)
  | readLock
  | writeLock
  deriving DecidableEq

/-- `struct tcb`. `freed` records that `free` was called on it; for a created thread only the
status that `thread_exit` jumps with does that. -/
structure Tcb where
  id : Nat
  routine : Routine
  args : List Int
  waitingFor : Nat
  sleepingTime : Int
  env : Env
  n : Int
  i : Int
  fCur : Int
  fPrev : Int
  keepgo : Bool
  freed : Bool

/-- `struct tcb_queue`: a circular array with the indices of its first entry and of the
entry behind its last one. -/
structure TcbQueue where
  arr : List Nat
  head : Nat
  size : Nat

inductive Signal where
  | SIGTSTP
  | SIGALRM
  deriving DecidableEq

/-- The lines the program prints. -/
inductive Print where
  | setUp (id : Nat) (routine : Routine)
  | idle (id : Nat)
  | fibonacci (id : Nat) (i value : Int)
  | pm (id : Nat) (i value : Int)
  | sleep (id : Nat) (seconds : Int)
  | acquireRead (id : Nat)
  | releaseRead (id : Nat) (pp ps : Int)
  | acquireWrite (id : Nat) (pjClass : Bool)
  | releaseWrite (id : Nat)
  | exit (id : Nat)
  | caught (signal : Signal)
  deriving DecidableEq

/-- The globals of `main.c` and `scheduler.c`. `pp` and `ps` are the locals of `enroll`
that live across its yields: every thread's frame of `enroll` is the one at the
address `spawn_thread` called it at, so the threads share them. Frames of other routines
may lie over them there, which is left out: only the class that `enroll` prints reads them. -/
structure State where
  tcbs : Nat → Tcb
  currentThread : Nat
  readyQueue : TcbQueue
  waitingQueue : TcbQueue
  sleepingSet : List (Option Nat)
  readCount : Int
  writeCount : Int
  qP : Int
  qS : Int
  timeSlice : Int
  firstTime : Bool
  pp : Int
  ps : Int
  out : List Print
  returned : Bool

namespace TcbQueue

/-- `arr[size] = tcb; size = (size + 1) % THREAD_MAX`. -/
def enqueue (q : TcbQueue) (p : Nat) : TcbQueue :=
  { q with arr := q.arr.set q.size p, size := (q.size + 1) % THREAD_MAX }

/-- `head = (head + 1) % THREAD_MAX`. -/
def advance (q : TcbQueue) : TcbQueue :=
  { q with head := (q.head + 1) % THREAD_MAX }

/-- The queued threads, from `head` round to `size`. -/
def contents (q : TcbQueue) : List Nat :=
  Ring.segment q.arr THREAD_MAX q.head q.size

def empty : TcbQueue where
  arr := List.replicate THREAD_MAX 0
  head := 0
  size := 0

end TcbQueue

namespace State

def setTcb (s : State) (p : Nat) (tcb : Tcb) : State :=
  { s with tcbs := Function.update s.tcbs p tcb }

def print (s : State) (line : Print) : State := { s with out := s.out ++ [line] }

/-- The tcb of the current thread. -/
def current (s : State) : Tcb := s.tcbs s.currentThread

def setCurrent (s : State) (tcb : Tcb) : State := s.setTcb s.currentThread tcb

def readyPush (s : State) (p : Nat) : State :=
  { s with readyQueue := s.readyQueue.enqueue p }

/-! ## `scheduler.c` -/

/-- The creation of the idle thread at the first entry of `scheduler`. -/
def createIdle (s : State) : State :=
  if s.firstTime then
    { (s.print (.setUp 0 .idle)).setTcb 0
        { id := 0, routine := .idle, args := [], waitingFor := 0, sleepingTime := 0, env := .setup
          n := 0, i := 0, fCur := 0, fPrev := 0, keepgo := false, freed := false }
      with firstTime := false }
  else s

/-- One turn of the loop over `sleeping_set`. -/
def sleepScanStep (s : State) (i : Nat) : State :=
  match s.sleepingSet.getD i none with
  | none => s
  | some p =>
      let tcb := { s.tcbs p with sleepingTime := (s.tcbs p).sleepingTime - s.timeSlice }
      if tcb.sleepingTime ≤ 0 then
        { (s.readyPush p).setTcb p { tcb with keepgo := true } with
          sleepingSet := s.sleepingSet.set i none }
      else
        s.setTcb p tcb

/-- Lines 50 to 64. -/
def sleepScan (s : State) : State := (List.range THREAD_MAX).foldl sleepScanStep s

/-- Whether the scan lets a waiter proceed. -/
def mayProceed (s : State) (p : Nat) : Bool :=
  if (s.tcbs p).waitingFor = 4 then decide (s.writeCount = 0)
  else if (s.tcbs p).waitingFor = 5 then decide (s.writeCount = 0 ∧ s.readCount = 0)
  else false

/-- One turn of the loop over `waiting_queue`. -/
def waitScanStep (s : State) (i : Nat) : State :=
  let p := s.waitingQueue.arr.getD i 0
  if s.mayProceed p then
    { s.readyPush p with waitingQueue := s.waitingQueue.advance }
  else s

/-- The turns of that loop from index `i` on. -/
def waitScanFrom (s : State) (i : Nat) : Nat → State
  | 0 => s
  | count + 1 => waitScanFrom (s.waitScanStep i) (i + 1) count

/-- Lines 66 to 82. Nothing in the loop writes `waiting_queue.size`. -/
def waitScan (s : State) : State :=
  s.waitScanFrom s.waitingQueue.head (s.waitingQueue.size - s.waitingQueue.head)

/-- Lines 84 to 104: what the status of the `longjmp` asks for. -/
def settle (s : State) (status : Nat) : State :=
  if status = 1 then
    if s.current.id ≠ 0 then s.readyPush s.currentThread else s
  else if status = 3 then
    s.setCurrent { s.current with freed := true }
  else s

/-- Whether the `sleeping_set` loops of lines 107 and 126 see a sleeper the test holds of. -/
def anySleeper (s : State) (test : Nat → Bool) : Bool :=
  (List.range THREAD_MAX).any fun i =>
    match s.sleepingSet.getD i none with
    | none => false
    | some p => test p

/-- Lines 123 to 133. Every turn advances `head`, so `THREAD_MAX` turns end the loop. -/
def dropSleeping (s : State) : Nat → State
  | 0 => s
  | turns + 1 =>
      if s.readyQueue.head = s.readyQueue.size then s
      else
        let first := s.readyQueue.arr.getD s.readyQueue.head 0
        if s.anySleeper fun p => decide ((s.tcbs p).id = (s.tcbs first).id) then
          dropSleeping { s with readyQueue := s.readyQueue.advance } turns
        else s

/-- Lines 105 to 143: choose the next thread, or free the idle thread and return. -/
def dispatch (s : State) : State :=
  if s.readyQueue.head = s.readyQueue.size then
    if s.anySleeper fun _ => true then { s with currentThread := 0 }
    else
      { s.setTcb 0 { s.tcbs 0 with freed := true } with currentThread := 0, returned := true }
  else
    let kept := s.dropSleeping THREAD_MAX
    if kept.readyQueue.head = kept.readyQueue.size then { kept with currentThread := 0 }
    else
      { kept with
        currentThread := kept.readyQueue.arr.getD kept.readyQueue.head 0
        readyQueue := kept.readyQueue.advance }

/-- `scheduler` from its `setjmp` on. -/
def scheduler (s : State) (status : Nat) : State :=
  ((s.createIdle.sleepScan.waitScan).settle status).dispatch

/-! ## The macros of `thread_tool.h` -/

/-- `thread_yield`: the pending signal, if any, is caught and enters the scheduler. -/
def threadYield (s : State) (k : Nat) (pending : Option Signal) : State :=
  let saved := s.setCurrent { s.current with env := .yield k }
  match pending with
  | some signal => (saved.print (.caught signal)).scheduler 1
  | none => saved

/-- `thread_sleep`. The resume point stays the one of `thread_setup`. -/
def threadSleep (s : State) (seconds : Int) : State :=
  { s.setCurrent { s.current with sleepingTime := seconds } with
    sleepingSet := s.sleepingSet.set s.current.id (some s.currentThread) }.scheduler 2

/-- `thread_exit`. -/
def threadExit (s : State) : State := (s.print (.exit s.current.id)).scheduler 3

/-- `thread_awake`. An index outside `sleeping_set` has no behaviour. -/
def threadAwake (s : State) (id : Int) : Option State :=
  if 0 ≤ id ∧ id ≤ THREAD_MAX then
    match s.sleepingSet.getD id.toNat none with
    | none => some s
    | some p =>
        some { (s.readyPush p).setTcb p { s.tcbs p with keepgo := true } with
          sleepingSet := s.sleepingSet.set id.toNat none }
  else none

/-- The waiting branch of `read_lock` (4) and `write_lock` (5). -/
def park (s : State) (env : Env) (resource : Nat) : State :=
  { s.setCurrent { s.current with env := env, waitingFor := resource } with
    waitingQueue := s.waitingQueue.enqueue s.currentThread }.scheduler resource

def readUnlock (s : State) : State :=
  { s with readCount := if s.readCount > 0 then s.readCount - 1 else s.readCount }

def writeUnlock (s : State) : State :=
  { s with writeCount := if s.writeCount = 1 then 0 else s.writeCount }

/-! ## `routine.c` -/

/-- The loop of `idle`. -/
def runIdle (s : State) (pending : Option Signal) : State :=
  (s.print (.idle s.current.id)).threadYield 0 pending

/-- The end of a turn of `fibonacci` or `pm`. -/
def finishTurn (s : State) (pending : Option Signal) : State :=
  if s.current.i = s.current.n then s.threadExit else s.threadYield 0 pending

/-- The next value of `fibonacci` and its line. -/
def fibonacciRound (s : State) : State :=
  let tcb := s.current
  let computed :=
    if tcb.i ≤ 2 then { tcb with fCur := 1, fPrev := 1 }
    else { tcb with fPrev := tcb.fCur, fCur := tcb.fCur + tcb.fPrev }
  (s.setCurrent computed).print (.fibonacci tcb.id tcb.i computed.fCur)

/-- The body of the loop of `fibonacci`. -/
def fibonacciTurn (s : State) (pending : Option Signal) : State :=
  s.fibonacciRound.finishTurn pending

/-- The next value of `pm` and its line. -/
def pmRound (s : State) : State :=
  let tcb := s.current
  let computed :=
    if tcb.i = 1 then { tcb with fCur := 1, fPrev := 1 }
    else
      { tcb with
        fPrev := tcb.fCur
        fCur := (if tcb.i % 2 = 1 then 1 else -1) * tcb.i + tcb.fCur }
  (s.setCurrent computed).print (.pm tcb.id tcb.i computed.fCur)

/-- The body of the loop of `pm`. -/
def pmTurn (s : State) (pending : Option Signal) : State := s.pmRound.finishTurn pending

/-- The loop head of `fibonacci` and `pm`: `i = 1` on the first turn, `i++` after a yield. -/
def loopHead (s : State) : State :=
  match s.current.env with
  | .setup => s.setCurrent { s.current with n := s.current.args.getD 0 0, i := 1 }
  | _ => s.setCurrent { s.current with i := s.current.i + 1 }

/-- `enroll` past `read_lock`. -/
def enrollReading (s : State) (pending : Option Signal) : State :=
  (s.print (.acquireRead s.current.id)).threadYield 1 pending

/-- `enroll` past `write_lock`. -/
def enrollWriting (s : State) (pending : Option Signal) : State :=
  (s.print (.acquireWrite s.current.id (decide (s.pp > s.ps)))).threadYield 3 pending

/-- `enroll` from `read_lock` on. -/
def enrollReadLock (s : State) (pending : Option Signal) : State :=
  if s.writeCount ≠ 0 then s.park .readLock 4
  else { s with readCount := s.readCount + 1 }.enrollReading pending

/-- `enroll` from `read_unlock` to the yield before `write_lock`. -/
def enrollRelease (s : State) (pending : Option Signal) : State :=
  let released := s.readUnlock
  let pp := s.current.args.getD 0 0 * s.qP
  let ps := s.current.args.getD 1 0 * s.qS
  ({ released with pp := pp, ps := ps }.print
    (.releaseRead s.current.id pp ps)).threadYield 2 pending

/-- `enroll` from `write_lock` on. -/
def enrollWriteLock (s : State) (pending : Option Signal) : State :=
  if s.writeCount ≠ 0 ∨ s.readCount ≠ 0 then s.park .writeLock 5
  else { s with writeCount := 1 }.enrollWriting pending

/-- `enroll` from `write_unlock` to its end. -/
def enrollFinish (s : State) : State :=
  (s.writeUnlock.print (.releaseWrite s.current.id)).threadExit

/-- `enroll` from the resume point of the current thread. -/
def runEnroll (s : State) (pending : Option Signal) : Option State :=
  match s.current.env with
  | .setup =>
      let seconds := s.current.args.getD 2 0
      if s.current.keepgo = false then
        some ((s.print (.sleep s.current.id seconds)).threadSleep (seconds + s.timeSlice))
      else
        (s.threadAwake (s.current.args.getD 3 0)).map (·.enrollReadLock pending)
  | .readLock => some (s.enrollReading pending)
  | .yield 1 => some (s.enrollRelease pending)
  | .yield 2 => some (s.enrollWriteLock pending)
  | .writeLock => some (s.enrollWriting pending)
  | .yield _ => some s.enrollFinish

/-- The current thread runs from its resume point to its next yield or jump into the
scheduler. -/
def step (s : State) (pending : Option Signal) : Option State :=
  if s.returned then none
  else
    match s.current.routine with
    | .idle => some (s.runIdle pending)
    | .fibonacci => some (s.loopHead.fibonacciTurn pending)
    | .pm => some (s.loopHead.pmTurn pending)
    | .enroll => s.runEnroll pending

/-- `thread_setup` of a thread other than the idle one: the tail index is not reduced. -/
def threadSetup (s : State) (routine : Routine) (id : Nat) (args : List Int) : State :=
  { (s.print (.setUp id routine)).setTcb id
      { id := id, routine := routine, args := args, waitingFor := 0, sleepingTime := 0
        env := .setup, n := 0, i := 0, fCur := 0, fPrev := 0, keepgo := false, freed := false }
    with
    readyQueue := { s.readyQueue with
      arr := s.readyQueue.arr.set s.readyQueue.size id
      size := s.readyQueue.size + 1 } }

end State

/-- A thread of the command line. -/
inductive Spec where
  | fibonacci (n : Int)
  | pm (n : Int)
  | enroll (dP dS s b : Int)

namespace Spec

def routine : Spec → Routine
  | .fibonacci _ => .fibonacci
  | .pm _ => .pm
  | .enroll _ _ _ _ => .enroll

def args : Spec → List Int
  | .fibonacci n => [n]
  | .pm n => [n]
  | .enroll dP dS s b => [dP, dS, s, b]

/-- The arguments the program is meant for. -/
def Valid : Spec → Prop
  | .fibonacci n => 1 ≤ n
  | .pm n => 1 ≤ n
  | .enroll _ _ _ b => 0 ≤ b ∧ b ≤ THREAD_MAX

end Spec

/-- The globals before any thread is created. -/
def blank (timeSlice qP qS : Int) : State where
  tcbs p := { id := p, routine := .idle, args := [], waitingFor := 0, sleepingTime := 0
              env := .setup, n := 0, i := 0, fCur := 0, fPrev := 0, keepgo := false, freed := false }
  currentThread := 0
  readyQueue := .empty
  waitingQueue := .empty
  sleepingSet := List.replicate (THREAD_MAX + 1) none
  readCount := 0
  writeCount := 0
  qP := qP
  qS := qS
  timeSlice := timeSlice
  firstTime := true
  pp := 0
  ps := 0
  out := []
  returned := false

/-- `spawn_thread`: the threads in order, with ids from `id` on. -/
def spawnThread (s : State) (id : Nat) : List Spec → State
  | [] => s
  | spec :: rest => spawnThread (s.threadSetup spec.routine id spec.args) (id + 1) rest

/-- The first dispatch: the threads are created and `scheduler` has been entered. -/
def start (timeSlice qP qS : Int) (specs : List Spec) : State :=
  (spawnThread (blank timeSlice qP qS) 1 specs).scheduler 0

/-- The program with its command line. -/
def machine (timeSlice qP qS : Int) (specs : List Spec) : Machine State (Option Signal) where
  Initial s := s = start timeSlice qP qS specs
  step s pending := s.step pending

end NTUSP.Threads
