import NTUSP.Library.CString
import NTUSP.Library.Forest
import NTUSP.Library.Machine

/-!
# The friends of Not_Tako

The command `Meet` of `friend.c`. Every friend is a process that runs the same loop, with
one pipe on which its parent sends it lines and one on which it replies. A process is
stored at its place in the tree, with the text in both of its pipes, so that a list of
friends is a forest of processes.

One step of one process is one system call with the computation around it. A read of a
reply pipe gets at most as many bytes as the environment lets through, and waits while the
pipe is empty. `pipe`, `fork`, `exec` and the writes succeed. The values of the friends are
not kept, and no other command is modelled. A step that is not defined by the language, as
printing a full `middle`, is not a step.
-/

namespace NTUSP.Friend

open NTUSP.Library CString

def MAX_FRIEND_INFO_LEN : Nat := 12
def MAX_FRIEND_NAME_LEN : Nat := 9
def MAX_CMD_LEN : Nat := 128

/-- `root`: the name of the root of the tree. -/
def rootName : List Char := "Not_Tako".toList

/-! ## What is printed -/

def printDirectMeet (friendName : List Char) : List Char :=
  "Not_Tako has met ".toList ++ friendName ++ " by himself\n".toList

def printIndirectMeet (parentName childName : List Char) : List Char :=
  "Not_Tako has met ".toList ++ childName ++ " through ".toList ++ parentName ++ ['\n']

def printFailMeet (parentName childName : List Char) : List Char :=
  "Not_Tako does not know ".toList ++ parentName ++ " to meet ".toList ++ childName ++ ['\n']

/-! ## Command lines -/

/-- `fscanf(stdin, "%[^\n]", cmd); getchar();`: the next line, and the text behind it. -/
def readLine (stdin : List Char) : Option (List Char × List Char) :=
  if '\n' ∈ stdin then
    some (stdin.takeWhile (· ≠ '\n'), (stdin.dropWhile (· ≠ '\n')).drop 1)
  else none

/-- `command`, `parent` and `childName` of a line. -/
def parse (cmd : List Char) : Option (List Char × List Char × List Char) := do
  let (command, rest) ← strtok ' ' cmd
  let (parent, rest) ← strtok ' ' rest
  let (child, _) ← strtok ' ' rest
  return (command, parent, child.takeWhile (· ≠ '_'))

/-- The locals of a `Meet` command. -/
structure Call where
  toChildCmd : List Char
  parent : List Char
  childName : List Char
  deriving DecidableEq

/-! ## Processes -/

/-- Where a process is in its program: before its first line, at the head of the loop, or in a
`Meet` command. `k` counts the friends behind `pNode`. -/
inductive Pc where
  | start
  | loop
  | ask (call : Call) (k : Nat) (middle : List Char)
  | await (call : Call) (k : Nat) (middle : List Char)
  | relay (call : Call) (k : Nat) (middle : List Char)
  | fork (call : Call)
  | tell (call : Call)
  | report (call : Call)
  deriving DecidableEq

/-- A process: `friend_info` and `friend_name`, and the text in its two pipes. -/
structure Proc where
  info : List Char
  name : List Char
  pc : Pc
  stdin : List Char
  stdout : List Char
  deriving DecidableEq

/-- The zeroed buffer a reply is read into. -/
def blank : List Char := List.replicate MAX_FRIEND_NAME_LEN '\x00'

namespace Proc

def isNotTako (p : Proc) : Bool := p.name = rootName

/-- Write to the pipe the process reads from. -/
def hand (p : Proc) (text : List Char) : Proc := { p with stdin := p.stdin ++ text }

def print (p : Proc) (text : List Char) : Proc := { p with stdout := p.stdout ++ text }

def goTo (p : Proc) (pc : Pc) : Proc := { p with pc := pc }

/-- A new process running `./friend childName`. -/
def spawn (childName : List Char) : Proc where
  info := childName.take MAX_FRIEND_INFO_LEN
  name := []
  pc := .start
  stdin := []
  stdout := []

/-- The name a friend gives itself: that of its argument, or else that of its first line. -/
def friendName (info childName : List Char) : List Char :=
  let named := info.takeWhile (· ≠ '_')
  (if named = [] then childName else named).take (MAX_FRIEND_NAME_LEN - 1)

/-- The line a new friend reads first. -/
def startUp (p : Proc) : Option Proc := do
  let (cmd, rest) ← readLine p.stdin
  let (_, _, childName) ← parse cmd
  return { p with name := friendName p.info childName, pc := .loop, stdin := rest }

/-- The head of the loop. -/
def takeLine (p : Proc) : Option Proc := do
  let (cmd, rest) ← readLine p.stdin
  if cmd = [] then return { p with stdin := rest }
  else if MAX_CMD_LEN < cmd.length + 2 then none
  else
    let (command, parent, childName) ← parse cmd
    if command = "Meet".toList then
      let call : Call := { toChildCmd := cmd ++ ['\n'], parent, childName }
      return { p with
        pc := if parent ≠ p.name then .ask call 0 blank else .fork call
        stdin := rest }
    else none

/-- Send the command to the next friend, or give up behind the last. -/
def askNext (p : Proc) (friends : Forest Proc) (call : Call) (k : Nat) (middle : List Char) :
    Proc × Forest Proc :=
  if k < friends.length then
    (p.goTo (.await call k middle), friends.modify (fun f => f.hand call.toChildCmd) k)
  else if p.isNotTako then
    ((p.print (printFailMeet call.parent call.childName)).goTo .loop, friends)
  else ((p.print ['-']).goTo .loop, friends)

/-- Read the reply of a friend, or the part of it that the pipe lets through. -/
def readReply (p : Proc) (friends : Forest Proc) (call : Call) (k : Nat) (middle : List Char)
    (count : Nat) : Option (Proc × Forest Proc) := do
  let f ← friends.root? k
  let bytes := f.stdout.take (min count MAX_FRIEND_NAME_LEN)
  if bytes = [] then none
  else
    some (p.goTo (.relay call k (bytes ++ middle.drop bytes.length)),
      friends.modify (fun f => { f with stdout := f.stdout.drop bytes.length }) k)

/-- Pass the reply on, and stop at the first that is no refusal. -/
def relayReply (p : Proc) (call : Call) (k : Nat) (middle : List Char) : Option Proc :=
  if p.isNotTako then
    if middle.head? = some '-' then some (p.goTo (.ask call (k + 1) middle))
    else if '\x00' ∈ middle then
      some ((p.print (printIndirectMeet (cstr middle) call.childName)).goTo .loop)
    else none
  else if '\x00' ∈ middle then
    if middle.head? = some '-' then
      some ((p.print (cstr middle)).goTo (.ask call (k + 1) middle))
    else some ((p.print (cstr middle)).goTo .loop)
  else none

/-- One step of a process with its friends. -/
def step (p : Proc) (friends : Forest Proc) (count : Nat) : Option (Proc × Forest Proc) :=
  match p.pc with
  | .start => p.startUp.map fun p => (p, friends)
  | .loop => p.takeLine.map fun p => (p, friends)
  | .ask call k middle => some (p.askNext friends call k middle)
  | .await call k middle => p.readReply friends call k middle count
  | .relay call k middle => (p.relayReply call k middle).map fun p => (p, friends)
  | .fork call => some (p.goTo (.tell call), friends.snoc (spawn call.childName))
  | .tell call =>
      some (p.goTo (.report call),
        friends.modify (fun f => f.hand call.toChildCmd) (friends.length - 1))
  | .report call =>
      some ((p.print (if p.isNotTako then printDirectMeet call.childName else p.name)).goTo .loop,
        friends)

end Proc

/-- One step of the process at a place of a forest. -/
def stepAt (count : Nat) : Forest Proc → Place → Option (Forest Proc)
  | .nil, _ => none
  | .node p friends others, .here =>
      (p.step friends count).map fun (p, friends) => .node p friends others
  | .node p friends others, .child place =>
      (stepAt count friends place).map fun friends => .node p friends others
  | .node p friends others, .next place =>
      (stepAt count others place).map fun others => .node p friends others

/-- Not_Tako and its friends. Its input is a user's, and its output is the terminal's. -/
structure World where
  root : Proc
  friends : Forest Proc
  deriving DecidableEq

/-- A command of the user, or a step of one process, which gets at most `count` bytes if it
reads a reply. -/
inductive Action where
  | meet (parent child value : List Char)
  | run (place : Place) (count : Nat)
  deriving DecidableEq

/-- `Meet P C_v`. -/
def meetLine (parent child value : List Char) : List Char :=
  "Meet".toList ++ ' ' :: (parent ++ ' ' :: (child ++ '_' :: value))

namespace World

/-- Not_Tako alone. -/
def start : World where
  root := { info := rootName, name := rootName, pc := .loop, stdin := [], stdout := [] }
  friends := .nil

/-- Not_Tako waits for a command. -/
def Finished (w : World) : Prop := w.root.pc = .loop ∧ w.root.stdin = []

instance (w : World) : Decidable w.Finished := by
  unfold Finished
  infer_instance

def step (w : World) : Action → Option World
  | .meet parent child value =>
      if w.Finished then some { w with root := w.root.hand (meetLine parent child value ++ ['\n']) }
      else none
  | .run .here count =>
      (w.root.step w.friends count).map fun (root, friends) => { root, friends }
  | .run (.child place) count =>
      (stepAt count w.friends place).map fun friends => { w with friends := friends }
  | .run (.next _) _ => none

end World

/-- The friends, from Not_Tako alone. The commands are given to a Not_Tako that waits. -/
def machine : Machine World Action where
  Initial w := w = .start
  step := World.step

end NTUSP.Friend
