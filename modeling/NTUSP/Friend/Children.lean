import NTUSP.Friend.Model
import NTUSP.Library.LinkedList
import Mathlib.Data.List.Induction
import Mathlib.Data.List.Nodup

/-!
# The list of children

`Meet` appends a child behind the last one, which `pTail->prev` names. No node ever points to the
dummy tail: the last child's `next` is a null pointer. That is where the search of `friend.c`
stops. `printList` goes on until it meets the dummy tail, which it never does.
-/

namespace NTUSP.Friend

open NTUSP.Library Heap

/-- `friend`, with the members `Meet` sets. -/
structure FriendData where
  pid : Int
  readFd : Int
  writeFd : Int
  name : List Char
  value : Int
  deriving DecidableEq

/-- `sList` with its parameters, and the memory its nodes are in. -/
structure ChildList where
  heap : Heap (Option FriendData)
  pHead : Nat
  pTail : Nat
  cursor : Nat
  size : Int
  registered : Bool

/-- A node without neighbours. -/
def newNode (data : Option FriendData) : Node (Option FriendData) := { data, prev := none, next := none }

/-- `initList`, with the two addresses it gets from `malloc`. -/
def initList (pHead pTail : Nat) : ChildList where
  heap := write (write (fun _ => none) pHead (newNode none)) pTail (newNode none)
  pHead := pHead
  pTail := pTail
  cursor := pHead
  size := 0
  registered := false

/-- `regPrintCallback`. -/
def regPrintCallback (s : ChildList) : ChildList := { s with registered := true }

namespace ChildList

/-- `p->next = value`; `none` when `p` points to no node. -/
def setNext (s : ChildList) (p : Nat) (value : Option Nat) : Option ChildList :=
  (s.heap p).map fun node => { s with heap := s.heap.write p { node with next := value } }

/-- `p->prev = value`. -/
def setPrev (s : ChildList) (p : Nat) (value : Option Nat) : Option ChildList :=
  (s.heap p).map fun node => { s with heap := s.heap.write p { node with prev := value } }

/-- The end of `Meet` in the parent, with the address it gets from `malloc`. -/
def addChild (s : ChildList) (address : Nat) (child : FriendData) : Option ChildList := do
  let allocated := { s with heap := s.heap.write address (newNode (some child)) }
  if s.size = 0 then
    let linked ← allocated.setNext s.pHead (some address)
    let last ← linked.setPrev s.pTail (some address)
    return { last with size := last.size + 1 }
  else
    let pTail ← allocated.heap s.pTail
    let pLast ← pTail.prev
    let linked ← allocated.setNext pLast (some address)
    let last ← linked.setPrev s.pTail (some address)
    return { last with size := last.size + 1 }

/-- The search of `Meet`, up to `turns` turns: what it sees if nobody stops it. -/
def search (s : ChildList) (turns : Nat) : Option (Walk (Option FriendData)) :=
  (s.heap s.pHead).map fun head => s.heap.walk none (fun _ data => [data]) turns head.next

/-- What `printList` prints. -/
inductive PrintItem where
  | notRegistered
  | text
  | bar
  | node (data : Option FriendData)
  deriving DecidableEq

/-- The node that a printed item stands for. -/
def PrintItem.visited : PrintItem → Option (Option FriendData)
  | .node data => some data
  | _ => none

/-- `printList`, for up to `turns` turns of its loop. -/
def printList (s : ChildList) (turns : Nat) : Option (Walk PrintItem) :=
  if s.registered then
    if s.size = 0 then some (.returned [.text])
    else
      (s.heap s.pHead).map fun head =>
        (s.heap.walk (some s.pTail)
          (fun pNode data => .node data :: if pNode = s.cursor then [.bar] else [])
          turns head.next).after (.text :: if s.cursor = s.pHead then [.bar] else [])
  else some (.returned [.notRegistered])

/-- The children that `Meet` adds one after the other, each with the address of its node. `malloc`
gives memory that is not in use. -/
def addChildren (s : ChildList) : List (Nat × FriendData) → Option ChildList
  | [] => some s
  | (address, child) :: rest =>
      if (s.heap address).isNone then
        (s.addChild address child).bind fun s => s.addChildren rest
      else none

/-! ## The nodes of the list -/

/-- The list holds `nodes`: they lie between the dummy head and a null pointer, and the dummy tail
names the last of them. -/
structure Holds (s : ChildList) (nodes : List (Nat × Option FriendData)) : Prop where
  head : ∃ node, s.heap s.pHead = some node ∧ s.heap.Segment node.next nodes none
  tail : ∃ node, s.heap s.pTail = some node ∧ node.prev = nodes.getLast?.map Prod.fst
  apart : s.pHead ≠ s.pTail
  outside : s.pHead ∉ nodes.map Prod.fst ∧ s.pTail ∉ nodes.map Prod.fst
  nodup : (nodes.map Prod.fst).Nodup
  size : s.size = nodes.length

/-- The members that `Meet` leaves alone. -/
structure Same (s t : ChildList) : Prop where
  pHead : t.pHead = s.pHead
  pTail : t.pTail = s.pTail
  cursor : t.cursor = s.cursor
  registered : t.registered = s.registered

variable {s t : ChildList} {nodes : List (Nat × Option FriendData)} {address : Nat}
  {child : FriendData}

theorem initList_holds {pHead pTail : Nat} (apart : pHead ≠ pTail) :
    (regPrintCallback (initList pHead pTail)).Holds [] where
  head := ⟨newNode none, by simp [regPrintCallback, initList, write, apart], .nil⟩
  tail := ⟨newNode none, by simp [regPrintCallback, initList], rfl⟩
  apart := apart
  outside := by simp
  nodup := List.nodup_nil
  size := rfl

/-- The list behind `Meet`, which has linked its node to `last`. -/
def linked (s : ChildList) (address : Nat) (child : FriendData) (last : Nat)
    (node tail : Node (Option FriendData)) : ChildList :=
  { s with
    heap := ((s.heap.write address (newNode (some child))).write last
      { node with next := some address }).write s.pTail { tail with prev := some address }
    size := s.size + 1 }

variable {last : Nat} {head node tail : Node (Option FriendData)}

/-- Both branches link the node and name it in the dummy tail. -/
theorem setNext_setPrev (child : FriendData) (atLast : s.heap last = some node) (atTail : s.heap s.pTail = some tail)
    (notTail : s.pTail ≠ last) (freshLast : last ≠ address) (freshTail : s.pTail ≠ address) :
    (do
      let linked ← ({ s with heap := s.heap.write address (newNode (some child)) } :
        ChildList).setNext last (some address)
      let t ← linked.setPrev s.pTail (some address)
      return { t with size := t.size + 1 }) = some (s.linked address child last node tail) := by
  have there : s.heap.write address (newNode (some child)) last = some node :=
    (write_other s.heap _ freshLast).trans atLast
  have here : (s.heap.write address (newNode (some child))).write last
      { node with next := some address } s.pTail = some tail :=
    (write_other _ _ notTail).trans ((write_other s.heap _ freshTail).trans atTail)
  simp [setNext, there, setPrev, here, linked]

/-- The first child is linked to the dummy head. -/
theorem addChild_first (empty : s.size = 0) (atHead : s.heap s.pHead = some head)
    (atTail : s.heap s.pTail = some tail) (apart : s.pHead ≠ s.pTail)
    (fresh : s.heap address = none) :
    s.addChild address child = some (s.linked address child s.pHead head tail) := by
  have freshHead : s.pHead ≠ address := fun same => by simp [same, fresh] at atHead
  have freshTail : s.pTail ≠ address := fun same => by simp [same, fresh] at atTail
  have linked := setNext_setPrev child atHead atTail (Ne.symm apart) freshHead freshTail
  unfold addChild
  rw [if_pos empty]
  exact linked

/-- A later child is linked to the one before. -/
theorem addChild_later (some : s.size ≠ 0) (atTail : s.heap s.pTail = .some tail)
    (named : tail.prev = .some last) (atLast : s.heap last = .some node) (notTail : s.pTail ≠ last)
    (fresh : s.heap address = none) :
    s.addChild address child = .some (s.linked address child last node tail) := by
  have freshLast : last ≠ address := fun same => by simp [same, fresh] at atLast
  have freshTail : s.pTail ≠ address := fun same => by simp [same, fresh] at atTail
  have found : s.heap.write address (newNode (.some child)) s.pTail = .some tail :=
    (write_other s.heap _ freshTail).trans atTail
  unfold addChild
  simp only [if_neg some, found, Option.bind_eq_bind, Option.bind_some, named]
  exact setNext_setPrev child atLast atTail notTail freshLast freshTail

/-- `Meet` adds its node behind the last one. -/
theorem Holds.addChild (holds : s.Holds nodes) (fresh : s.heap address = none)
    (child : FriendData) :
    ∃ t, s.addChild address child = some t ∧ t.Holds (nodes ++ [(address, some child)]) ∧
      Same s t := by
  obtain ⟨head, atHead, segment⟩ := holds.head
  obtain ⟨tail, atTail, named⟩ := holds.tail
  obtain ⟨notHead, notTail⟩ := holds.outside
  have freshHead : s.pHead ≠ address := fun same => by simp [same, fresh] at atHead
  have freshTail : s.pTail ≠ address := fun same => by simp [same, fresh] at atTail
  have unused : address ∉ nodes.map Prod.fst := fun member => segment.allocated member fresh
  have outside : s.pHead ∉ (nodes ++ [(address, some child)]).map Prod.fst ∧
      s.pTail ∉ (nodes ++ [(address, some child)]).map Prod.fst := by
    rw [List.map_append, List.mem_append, List.mem_append]
    simpa [freshHead, freshTail] using holds.outside
  have nodup : ((nodes ++ [(address, some child)]).map Prod.fst).Nodup := by
    rw [List.map_append]
    exact holds.nodup.append (List.nodup_singleton _) (by simpa using unused)
  have size : s.size + 1 = (nodes ++ [(address, some child)]).length := by
    simp [holds.size]
  have tailNode : ∀ last node, (s.linked address child last node tail).heap s.pTail =
      some { tail with prev := some address } := fun last node => write_self _ _ _
  rcases List.eq_nil_or_concat' nodes with rfl | ⟨init, ⟨last, data⟩, rfl⟩
  · refine ⟨s.linked address child s.pHead head tail,
      addChild_first holds.size atHead atTail holds.apart fresh, ?_, rfl, rfl, rfl, rfl⟩
    refine
      { head := ⟨{ head with next := some address }, ?_, ?_⟩
        tail := ⟨_, tailNode _ _, by simp⟩
        apart := holds.apart
        outside := outside
        nodup := nodup
        size := size }
    · exact (write_other _ _ holds.apart).trans (write_self _ _ _)
    · have own : (s.linked address child s.pHead head tail).heap address =
          some (newNode (some child)) :=
        (write_other _ _ (Ne.symm freshTail)).trans
          ((write_other _ _ (Ne.symm freshHead)).trans (write_self _ _ _))
      exact .cons own .nil
  · obtain ⟨before, node, atLast, rfl, ends⟩ := segment.last
    have named' : tail.prev = some last := by simpa using named
    have apartHead : s.pHead ≠ last := fun same => by simp [same] at notHead
    have apartTail : s.pTail ≠ last := fun same => by simp [same] at notTail
    have freshLast : last ≠ address := fun same => by simp [same, fresh] at atLast
    have many : s.size ≠ 0 := by
      rw [holds.size]
      simp
      omega
    refine ⟨s.linked address child last node tail,
      addChild_later many atTail named' atLast apartTail fresh, ?_, rfl, rfl, rfl, rfl⟩
    refine
      { head := ⟨head, ?_, ?_⟩
        tail := ⟨_, tailNode _ _, by simp⟩
        apart := holds.apart
        outside := outside
        nodup := nodup
        size := size }
    · exact (write_other _ _ holds.apart).trans
        ((write_other _ _ apartHead).trans ((write_other _ _ freshHead).trans atHead))
    · -- the nodes before the last one are untouched, and the last one now leads to the new one
      have kept : (s.linked address child last node tail).heap.Segment head.next init
          (some last) := by
        refine ((before.frame ?_).frame ?_).frame ?_
        · exact fun member => unused (by simp [member])
        · have distinct := holds.nodup
          rw [List.map_append] at distinct
          exact fun member => (List.nodup_append.mp distinct).2.2 _ member _ (by simp) rfl
        · exact fun member => notTail (by simp [member])
      have own : (s.linked address child last node tail).heap address =
          some (newNode (some child)) :=
        (write_other _ _ (Ne.symm freshTail)).trans
          ((write_other _ _ (Ne.symm freshLast)).trans (write_self _ _ _))
      have relinked : (s.linked address child last node tail).heap last =
          some { node with next := some address } :=
        (write_other _ _ (Ne.symm apartTail)).trans (write_self _ _ _)
      exact (kept.snoc relinked).snoc own

theorem Same.trans {u : ChildList} (first : Same s t) (second : Same t u) : Same s u where
  pHead := second.pHead.trans first.pHead
  pTail := second.pTail.trans first.pTail
  cursor := second.cursor.trans first.cursor
  registered := second.registered.trans first.registered

/-- The nodes of children. -/
def childNodes (children : List (Nat × FriendData)) : List (Nat × Option FriendData) :=
  children.map fun (address, child) => (address, some child)

/-- The list holds all the children that were added. -/
theorem Holds.addChildren {children : List (Nat × FriendData)} (holds : s.Holds nodes)
    (added : s.addChildren children = some t) :
    t.Holds (nodes ++ childNodes children) ∧ Same s t := by
  induction children generalizing s nodes with
  | nil =>
    cases added
    refine ⟨?_, rfl, rfl, rfl, rfl⟩
    simpa [childNodes] using holds
  | cons first rest ih =>
    obtain ⟨address, child⟩ := first
    rw [ChildList.addChildren] at added
    split at added
    · rename_i free
      obtain ⟨u, one, held, same⟩ := holds.addChild (Option.isNone_iff_eq_none.mp free) child
      rw [one] at added
      obtain ⟨all, later⟩ := ih held added
      refine ⟨?_, same.trans later⟩
      simpa [childNodes] using all
    · cases added

/-! ## The walks -/

/-- The search sees every child and stops at the null pointer behind the last one. -/
theorem Holds.search (holds : s.Holds nodes) :
    s.search (nodes.length + 1) = some (.returned (nodes.map Prod.snd)) := by
  obtain ⟨head, atHead, segment⟩ := holds.head
  unfold ChildList.search
  rw [atHead, Option.map_some, walk_segment segment (fun _ _ => Option.some_ne_none _),
    walk_stop, List.map_eq_flatMap]
  simp [Walk.after]

/-- The walk of `printList`. -/
def printWalk (s : ChildList) (turns : Nat) (p : Option Nat) : Walk PrintItem :=
  s.heap.walk (some s.pTail)
    (fun pNode data => .node data :: if pNode = s.cursor then [.bar] else []) turns p

/-- It follows the null pointer behind the last child. -/
theorem Holds.printWalk (holds : s.Holds nodes) :
    ∃ head items, s.heap s.pHead = some head ∧
      s.printWalk (nodes.length + 1) head.next = .fault items none := by
  obtain ⟨head, atHead, segment⟩ := holds.head
  have other : ∀ address ∈ nodes.map Prod.fst, some address ≠ some s.pTail := by
    intro address member same
    exact holds.outside.2 (Option.some.inj same ▸ member)
  refine ⟨head, nodes.flatMap (fun (pNode, data) =>
    .node data :: if pNode = s.cursor then [.bar] else []), atHead, ?_⟩
  unfold ChildList.printWalk
  rw [walk_segment segment other, walk_null (Option.some_ne_none _)]
  simp [Walk.after]

/-- What `printList` does on a list with children, behind its tests. -/
theorem Holds.printList (holds : s.Holds nodes) (filled : nodes ≠ [])
    (registered : s.registered = true) {head : Node (Option FriendData)}
    (atHead : s.heap s.pHead = some head) (turns : Nat) :
    s.printList turns = some ((s.printWalk turns head.next).after
      (.text :: if s.cursor = s.pHead then [.bar] else [])) := by
  have many : s.size ≠ 0 := by
    rw [holds.size]
    simpa using filled
  unfold ChildList.printList
  rw [if_pos registered, if_neg many, atHead]
  rfl

/-- The dummy tail names the node of the last child. -/
theorem Holds.lastNode (holds : s.Holds nodes) (filled : nodes ≠ []) :
    ∃ tail last node, s.heap s.pTail = some tail ∧ tail.prev = some last ∧
      s.heap last = some node ∧ some node.data = (nodes.map Prod.snd).getLast? := by
  obtain ⟨tail, atTail, named⟩ := holds.tail
  obtain ⟨_, _, segment⟩ := holds.head
  rcases List.eq_nil_or_concat' nodes with empty | ⟨init, ⟨last, data⟩, rfl⟩
  · exact absurd empty filled
  · obtain ⟨_, node, atLast, rfl, _⟩ := segment.last
    exact ⟨tail, last, node, atTail, by simpa using named, atLast, by simp⟩

/-- `printList` returns from no list with children. -/
theorem Holds.printList_not_returned (holds : s.Holds nodes) (filled : nodes ≠ [])
    (registered : s.registered = true) (turns : Nat) (items : List PrintItem) :
    s.printList turns ≠ some (.returned items) := by
  intro returned
  obtain ⟨head, printed, atHead, faults⟩ := holds.printWalk
  rw [holds.printList filled registered atHead] at returned
  have returns : ∃ seen, s.printWalk turns head.next = .returned seen := by
    cases walked : s.printWalk turns head.next with
    | returned seen => exact ⟨seen, rfl⟩
    | fault seen p => rw [walked] at returned; cases returned
    | running seen => rw [walked] at returned; cases returned
  obtain ⟨seen, returns⟩ := returns
  -- both walks go on unchanged for as many turns as both have together
  have one := walk_more (by simp) returns (nodes.length + 1)
  have other := walk_more (by simp) faults turns
  rw [Nat.add_comm] at other
  cases one.symm.trans other

/-- What a user of the list expects of it, with its children in the order they were met. -/
structure Agreement (s : ChildList) (children : List FriendData) : Prop where
  search : ∃ turns, s.search turns = some (.returned (children.map some))
  printed : ∃ turns items, s.printList turns = some (.returned items) ∧
    items.filterMap PrintItem.visited = children.map some
  size : s.size = children.length
  last : ∃ tail last node, s.heap s.pTail = some tail ∧ tail.prev = some last ∧
    s.heap last = some node ∧ some node.data = (children.map some).getLast?

end ChildList

open ChildList

/-- For every non-empty list of children, the search visits exactly the children in order, and the
size and the dummy tail are right. But `printList` follows the null pointer behind the last child,
so the list is never what its users expect. -/
theorem printList_never_ends {pHead pTail : Nat} (apart : pHead ≠ pTail)
    (first : Nat × FriendData) (rest : List (Nat × FriendData)) {s : ChildList}
    (added : (regPrintCallback (initList pHead pTail)).addChildren (first :: rest) = some s) :
    ((∃ turns, s.search turns = some (.returned (((first :: rest).map Prod.snd).map some))) ∧
      s.size = (first :: rest).length ∧
      ∃ tail last node, s.heap s.pTail = some tail ∧ tail.prev = some last ∧
        s.heap last = some node ∧
        some node.data = (((first :: rest).map Prod.snd).map some).getLast?) ∧
    (∃ turns items, s.printList turns = some (.fault items none)) ∧
    ¬ s.Agreement ((first :: rest).map Prod.snd) := by
  obtain ⟨holds, same⟩ := (initList_holds apart).addChildren added
  rw [List.nil_append] at holds
  have filled : childNodes (first :: rest) ≠ [] := List.cons_ne_nil _ _
  have registered : s.registered = true := same.registered
  have children : (childNodes (first :: rest)).map Prod.snd =
      ((first :: rest).map Prod.snd).map some := by
    simp [childNodes]
  refine ⟨⟨⟨(childNodes (first :: rest)).length + 1, ?_⟩, ?_, ?_⟩, ?_, fun agreement => ?_⟩
  · rw [← children]
    exact holds.search
  · rw [holds.size]
    simp [childNodes]
  · rw [← children]
    exact holds.lastNode filled
  · obtain ⟨head, items, atHead, faults⟩ := holds.printWalk
    have printed := holds.printList filled registered atHead
      ((childNodes (first :: rest)).length + 1)
    rw [faults] at printed
    exact ⟨_, _, printed⟩
  · obtain ⟨turns, items, returned, _⟩ := agreement.printed
    exact holds.printList_not_returned filled registered turns items returned

/-- Two children. -/
def alice : FriendData where
  pid := 101
  readFd := 3
  writeFd := 6
  name := "Alice".toList
  value := 10

def bob : FriendData where
  pid := 102
  readFd := 5
  writeFd := 8
  name := "Bob".toList
  value := 20

theorem printList_never_ends_two :
    ∃ s, (regPrintCallback (initList 1 2)).addChildren [(3, alice), (4, bob)] = some s ∧
      ¬ s.Agreement [alice, bob] :=
  ⟨_, rfl, (printList_never_ends (show 1 ≠ 2 by decide) (3, alice) [(4, bob)] rfl).2.2⟩

/-- With one child, `printList` prints it and follows the null pointer. -/
theorem printList_one_child :
    ∃ s, (regPrintCallback (initList 1 2)).addChildren [(3, alice)] = some s ∧
      s.printList 2 = some (.fault [.text, .bar, .node (some alice)] none) ∧
      ¬ s.Agreement [alice] := by
  refine ⟨_, rfl, by decide, fun agreement => ?_⟩
  obtain ⟨holds, same⟩ := (initList_holds (show 1 ≠ 2 by decide)).addChildren
    (rfl : (regPrintCallback (initList 1 2)).addChildren [(3, alice)] = some _)
  obtain ⟨turns, items, returned, _⟩ := agreement.printed
  exact holds.printList_not_returned (List.cons_ne_nil _ _) same.registered turns items returned

end NTUSP.Friend
