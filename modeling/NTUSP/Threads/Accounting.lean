import Mathlib.Data.List.Nodup
import NTUSP.Library.Counting
import NTUSP.Threads.Queue

/-!
# Where the scheduler keeps a thread

`Accounted n hand s` says that of the threads `1 … n` every one that has not
exited, except the one in hand, is listed exactly once by the two queues and the
sleeping set, and that nothing else is listed. The moves of the scheduler carry a
thread from one list to another, or between a list and the hand.
-/

namespace NTUSP.Threads

open NTUSP.Library

/-- Waking the thread of an entry takes it off the set. -/
theorem count_set_none {entries : List (Option Nat)} {i p : Nat}
    (asleep : entries[i]? = some (some p)) (q : Nat) :
    (entries.set i none).count (some q) + (if p = q then 1 else 0) = entries.count (some q) := by
  have moved := Counting.countP_set_add (· == some q) asleep none
  unfold List.count
  by_cases same : p = q
  · simp [same] at moved ⊢
    omega
  · simp [same, beq_false_of_ne same] at moved ⊢
    omega

/-- Filling a free entry puts its thread on the set. -/
theorem count_set_some {entries : List (Option Nat)} {i : Nat} (vacant : entries[i]? = some none)
    (p q : Nat) :
    (entries.set i (some p)).count (some q) = entries.count (some q) + if p = q then 1 else 0 := by
  have moved := Counting.countP_set_add (· == some q) vacant (some p)
  unfold List.count
  by_cases same : p = q
  · simp [same] at moved ⊢
    omega
  · simp [same, beq_false_of_ne same] at moved ⊢
    omega

namespace State

/-- How often the queues and the sleeping set list a thread. -/
def queued (s : State) (t : Nat) : Nat :=
  s.readyQueue.contents.count t + s.waitingQueue.contents.count t + s.sleepingSet.count (some t)

/-- A created thread that has not executed `thread_exit`. -/
def Alive (n : Nat) (s : State) (t : Nat) : Prop :=
  1 ≤ t ∧ t ≤ n ∧ (s.tcbs t).freed = false

instance (n : Nat) (s : State) (t : Nat) : Decidable (s.Alive n t) := by
  unfold Alive
  infer_instance

/-- The tables of the scheduler: a tcb under its id, and a sleeper under its id. -/
structure Shape (s : State) : Prop where
  ids : ∀ p, (s.tcbs p).id = p
  idle : (s.tcbs 0).routine = .idle
  ready : s.readyQueue.Valid
  waiting : s.waitingQueue.Valid
  sleeping : s.sleepingSet.length = THREAD_MAX + 1
  slot : ∀ i p : Nat, s.sleepingSet[i]? = some (some p) → p = i

/-- Every living thread but the one in hand is queued exactly once, and nothing else is. -/
structure Accounted (n hand : Nat) (s : State) : Prop extends s.Shape where
  few : n < THREAD_MAX
  placed : ∀ t, s.queued t = if s.Alive n t ∧ t ≠ hand then 1 else 0

namespace Accounted

variable {n hand p i : Nat} {s t : State}

theorem queued_le_one (acc : s.Accounted n hand) (p : Nat) : s.queued p ≤ 1 := by
  rw [acc.placed p]
  split <;> omega

/-- What is listed is alive and not in hand. -/
theorem alive_of_queued (acc : s.Accounted n hand) (listed : 0 < s.queued p) :
    s.Alive n p ∧ p ≠ hand := by
  rw [acc.placed p] at listed
  split at listed
  · assumption
  · omega

/-- The thread in hand is in no list. -/
theorem queued_hand (acc : s.Accounted n hand) : s.queued hand = 0 := by
  rw [acc.placed hand]
  simp

theorem ready_le_queued (s : State) (p : Nat) : s.readyQueue.contents.count p ≤ s.queued p := by
  unfold queued
  omega

theorem waiting_le_queued (s : State) (p : Nat) :
    s.waitingQueue.contents.count p ≤ s.queued p := by
  unfold queued
  omega

theorem sleeping_le_queued (s : State) (p : Nat) : s.sleepingSet.count (some p) ≤ s.queued p := by
  unfold queued
  omega

theorem alive_of_ready (acc : s.Accounted n hand) (member : p ∈ s.readyQueue.contents) :
    s.Alive n p ∧ p ≠ hand :=
  acc.alive_of_queued
    (Nat.lt_of_lt_of_le (List.count_pos_iff.mpr member) (ready_le_queued s p))

theorem alive_of_waiting (acc : s.Accounted n hand) (member : p ∈ s.waitingQueue.contents) :
    s.Alive n p ∧ p ≠ hand :=
  acc.alive_of_queued
    (Nat.lt_of_lt_of_le (List.count_pos_iff.mpr member) (waiting_le_queued s p))

theorem alive_of_sleeping (acc : s.Accounted n hand) (member : some p ∈ s.sleepingSet) :
    s.Alive n p ∧ p ≠ hand :=
  acc.alive_of_queued
    (Nat.lt_of_lt_of_le (List.count_pos_iff.mpr member) (sleeping_le_queued s p))

/-- What the lists hold, taken in any order, are distinct created threads. -/
theorem listed_distinct (acc : s.Accounted n hand) {contents : List Nat}
    (listed : ∀ q, contents.count q ≤ s.queued q) :
    contents.Nodup ∧ ∀ q ∈ contents, 1 ≤ q ∧ q ≤ n := by
  refine ⟨List.nodup_iff_count_le_one.mpr fun q => Nat.le_trans (listed q) (acc.queued_le_one q),
    fun q member => ?_⟩
  have positive := Nat.lt_of_lt_of_le (List.count_pos_iff.mpr member) (listed q)
  obtain ⟨⟨lower, upper, _⟩, _⟩ := acc.alive_of_queued positive
  exact ⟨lower, upper⟩

/-- Together the lists hold at most as many threads as there are. -/
theorem listed_length (acc : s.Accounted n hand) {contents : List Nat}
    (listed : ∀ q, contents.count q ≤ s.queued q) : contents.length ≤ n := by
  obtain ⟨distinct, inside⟩ := acc.listed_distinct listed
  exact Counting.length_le_of_nodup distinct inside

/-- A queue that does not list a thread has a place for it, with one more to spare. -/
theorem room (acc : s.Accounted n hand) {contents : List Nat}
    (listed : ∀ q, contents.count q ≤ s.queued q) (bounds : 1 ≤ p ∧ p ≤ n)
    (absent : p ∉ contents) : contents.length + 1 < THREAD_MAX := by
  obtain ⟨distinct, inside⟩ := acc.listed_distinct listed
  have below := Counting.length_lt_of_fresh distinct inside bounds absent
  have few := acc.few
  omega

theorem alive_of_freed (freed : ∀ q, q ≠ 0 → (t.tcbs q).freed = (s.tcbs q).freed) (q : Nat) :
    t.Alive n q ↔ s.Alive n q := by
  unfold Alive
  by_cases zero : q = 0
  · simp [zero]
  · rw [freed q zero]

/-- A move between the lists. -/
theorem of_queued (acc : s.Accounted n hand) (shape : t.Shape)
    (freed : ∀ q, q ≠ 0 → (t.tcbs q).freed = (s.tcbs q).freed)
    (queued : ∀ q, t.queued q = s.queued q) : t.Accounted n hand where
  toShape := shape
  few := acc.few
  placed q := by
    rw [queued q, acc.placed q]
    simp only [alive_of_freed freed q]

/-- The thread in hand is put into a list. -/
theorem of_put (acc : s.Accounted n p) (alive : s.Alive n p) (shape : t.Shape)
    (freed : ∀ q, q ≠ 0 → (t.tcbs q).freed = (s.tcbs q).freed)
    (queued : ∀ q, t.queued q = s.queued q + if p = q then 1 else 0) : t.Accounted n 0 where
  toShape := shape
  few := acc.few
  placed q := by
    rw [queued q, acc.placed q]
    simp only [alive_of_freed freed q]
    by_cases same : p = q
    · subst same
      have positive := alive.1
      rw [if_neg (fun held => held.2 rfl), if_pos rfl, if_pos ⟨alive, by omega⟩]
    · by_cases living : s.Alive n q
      · have positive := living.1
        rw [if_pos ⟨living, Ne.symm same⟩, if_neg same, if_pos ⟨living, by omega⟩]
      · simp [living, same]

/-- A listed thread is taken into the empty hand. -/
theorem of_take (acc : s.Accounted n 0) (shape : t.Shape)
    (freed : ∀ q, q ≠ 0 → (t.tcbs q).freed = (s.tcbs q).freed)
    (queued : ∀ q, t.queued q + (if p = q then 1 else 0) = s.queued q) : t.Accounted n p where
  toShape := shape
  few := acc.few
  placed q := by
    have taken := queued q
    rw [acc.placed q] at taken
    simp only [alive_of_freed freed q]
    by_cases same : p = q
    · simp only [same, ne_eq, not_true, and_false, if_true, if_false] at taken ⊢
      split at taken <;> omega
    · by_cases living : s.Alive n q
      · have positive := living.1
        have created : q ≠ 0 := by omega
        simpa [living, same, Ne.symm same, created] using taken
      · simpa [living, same] using taken

/-- Nothing but the lists, the ids and `freed` matters. -/
theorem of_same (acc : s.Accounted n hand) (ready : t.readyQueue = s.readyQueue)
    (waiting : t.waitingQueue = s.waitingQueue) (sleeping : t.sleepingSet = s.sleepingSet)
    (ids : ∀ p, (t.tcbs p).id = p) (idle : (t.tcbs 0).routine = .idle)
    (freed : ∀ p, p ≠ 0 → (t.tcbs p).freed = (s.tcbs p).freed) : t.Accounted n hand := by
  refine acc.of_queued ?_ freed fun q => ?_
  · exact
      { ids := ids
        idle := idle
        ready := ready ▸ acc.ready
        waiting := waiting ▸ acc.waiting
        sleeping := sleeping ▸ acc.sleeping
        slot := sleeping ▸ acc.slot }
  · simp only [queued, ready, waiting, sleeping]

end Accounted

/-- Sleeper `p` of entry `i` moves to the ready queue with its tcb rewritten: the step of
both the sleeping scan and `thread_awake`. -/
def awaken (s : State) (i p : Nat) (tcb : Tcb) : State :=
  { (s.readyPush p).setTcb p tcb with sleepingSet := s.sleepingSet.set i none }

/-- The first waiter moves to the ready queue. -/
def release (s : State) : State :=
  { s.readyPush (s.waitingQueue.arr.getD s.waitingQueue.head 0) with
    waitingQueue := s.waitingQueue.advance }

variable {n hand p i : Nat} {s : State} {tcb : Tcb}

theorem setTcb_freed (freed : tcb.freed = (s.tcbs p).freed) (q : Nat) :
    ((s.setTcb p tcb).tcbs q).freed = (s.tcbs q).freed := by
  by_cases same : q = p
  · rw [same]
    simpa [setTcb] using freed
  · simp [setTcb, same]

namespace Shape

theorem setTcb (shape : s.Shape) (id : tcb.id = p) (created : p ≠ 0) :
    (s.setTcb p tcb).Shape where
  ids q := by
    by_cases same : q = p
    · rw [same]
      simpa [State.setTcb] using id
    · simpa [State.setTcb, same] using shape.ids q
  idle := by simpa [State.setTcb, Function.update_of_ne (Ne.symm created)] using shape.idle
  ready := shape.ready
  waiting := shape.waiting
  sleeping := shape.sleeping
  slot := shape.slot

theorem readyPush (shape : s.Shape) (p : Nat) : (s.readyPush p).Shape :=
  { shape with ready := TcbQueue.enqueue_valid shape.ready p }

theorem setEntry (shape : s.Shape) {entry : Option Nat} (vacant : ∀ q, entry = some q → q = i) :
    { s with sleepingSet := s.sleepingSet.set i entry }.Shape :=
  { shape with
    sleeping := by simpa using shape.sleeping
    slot := fun j q found => by
      rw [List.getElem?_set] at found
      split at found
      · rename_i same
        split at found
        · rw [← same]
          exact vacant q (Option.some.inj found)
        · cases found
      · exact shape.slot j q found }

end Shape

namespace Accounted

theorem created_of_alive (alive : s.Alive n p) : p ≠ 0 := by
  have positive := alive.1
  omega

/-- A thread on another list has a place in the ready queue. -/
theorem ready_contents (acc : s.Accounted n hand) (alive : s.Alive n p)
    (elsewhere : s.queued p ≤ s.waitingQueue.contents.count p + s.sleepingSet.count (some p)) :
    (s.readyPush p).readyQueue.contents = s.readyQueue.contents ++ [p] := by
  refine TcbQueue.contents_enqueue acc.ready p ?_
  refine acc.room (ready_le_queued s) ⟨alive.1, alive.2.1⟩ fun listed => ?_
  have positive := List.count_pos_iff.mpr listed
  unfold queued at elsewhere
  omega

/-- A sleeper has a place at the tail of the ready queue. -/
theorem awaken_contents (acc : s.Accounted n hand) (asleep : s.sleepingSet[i]? = some (some p))
    (tcb : Tcb) :
    (s.awaken i p tcb).readyQueue.contents = s.readyQueue.contents ++ [p] := by
  have member : some p ∈ s.sleepingSet := List.mem_of_getElem? asleep
  refine acc.ready_contents (acc.alive_of_sleeping member).1 ?_
  have once := acc.queued_le_one p
  have inSet := List.count_pos_iff.mpr member
  omega

/-- A sleeper moves to the ready queue. -/
theorem awaken (acc : s.Accounted n hand) (asleep : s.sleepingSet[i]? = some (some p))
    (id : tcb.id = p) (freed : tcb.freed = (s.tcbs p).freed) :
    (s.awaken i p tcb).Accounted n hand := by
  obtain ⟨alive, _⟩ := acc.alive_of_sleeping (List.mem_of_getElem? asleep)
  have grown := acc.awaken_contents asleep tcb
  refine acc.of_queued ?_ (fun q _ => setTcb_freed freed q) fun q => ?_
  · exact ((acc.toShape.readyPush p).setTcb id (created_of_alive alive)).setEntry (by simp)
  · have moved := count_set_none asleep q
    change (s.awaken i p tcb).readyQueue.contents.count q + s.waitingQueue.contents.count q +
      (s.sleepingSet.set i none).count (some q) = _
    rw [grown, List.count_append, List.count_singleton, queued, ← moved]
    simp only [beq_iff_eq]
    omega

/-- The first waiter moves to the ready queue. -/
theorem release (acc : s.Accounted n hand)
    (nonempty : s.waitingQueue.head ≠ s.waitingQueue.size) : s.release.Accounted n hand := by
  have first := TcbQueue.contents_advance acc.waiting nonempty
  obtain ⟨alive, _⟩ := acc.alive_of_waiting (by rw [first]; exact List.mem_cons_self)
  have grown := acc.ready_contents alive (by
    have once := acc.queued_le_one (s.waitingQueue.arr.getD s.waitingQueue.head 0)
    rw [first, List.count_cons_self]
    omega)
  refine acc.of_queued ?_ (fun q _ => rfl) fun q => ?_
  · exact { acc.toShape.readyPush _ with waiting := TcbQueue.advance_valid acc.waiting }
  · change (s.readyPush _).readyQueue.contents.count q + s.waitingQueue.advance.contents.count q +
      s.sleepingSet.count (some q) = _
    rw [grown, List.count_append, List.count_singleton, queued, first, List.count_cons]
    omega

/-- The thread in hand moves to the ready queue. -/
theorem readyPush (acc : s.Accounted n p) (alive : s.Alive n p) :
    (s.readyPush p).Accounted n 0 := by
  have nowhere := acc.queued_hand
  have grown := acc.ready_contents alive (by omega)
  refine acc.of_put alive (acc.toShape.readyPush p) (fun q _ => rfl) fun q => ?_
  change (s.readyPush p).readyQueue.contents.count q + s.waitingQueue.contents.count q +
    s.sleepingSet.count (some q) = _
  rw [grown, List.count_append, List.count_singleton, queued]
  simp only [beq_iff_eq]
  omega

/-- The thread in hand moves to the waiting queue. -/
theorem waitingPush (acc : s.Accounted n p) (alive : s.Alive n p) (tcb : Tcb) (id : tcb.id = p)
    (freed : tcb.freed = (s.tcbs p).freed) :
    { s.setTcb p tcb with waitingQueue := s.waitingQueue.enqueue p }.Accounted n 0 := by
  have nowhere := acc.queued_hand
  have absent : p ∉ s.waitingQueue.contents := by
    intro listed
    have positive := List.count_pos_iff.mpr listed
    unfold queued at nowhere
    omega
  have grown := TcbQueue.contents_enqueue acc.waiting p
    (acc.room (waiting_le_queued s) ⟨alive.1, alive.2.1⟩ absent)
  refine acc.of_put alive ?_ (fun q _ => setTcb_freed freed q) fun q => ?_
  · exact
      { acc.toShape.setTcb id (created_of_alive alive) with
        waiting := TcbQueue.enqueue_valid acc.waiting p }
  · change s.readyQueue.contents.count q + (s.waitingQueue.enqueue p).contents.count q +
      s.sleepingSet.count (some q) = _
    rw [grown, List.count_append, List.count_singleton, queued]
    simp only [beq_iff_eq]
    omega

/-- The thread in hand goes to sleep at its own entry. -/
theorem sleep (acc : s.Accounted n p) (alive : s.Alive n p) (tcb : Tcb) (id : tcb.id = p)
    (freed : tcb.freed = (s.tcbs p).freed) :
    { s.setTcb p tcb with sleepingSet := s.sleepingSet.set p (some p) }.Accounted n 0 := by
  have nowhere := acc.queued_hand
  have vacant : s.sleepingSet[p]? = some none := by
    have few := acc.few
    have inside : p < s.sleepingSet.length := by
      have bound := alive.2.1
      rw [acc.sleeping]
      omega
    rw [List.getElem?_eq_getElem inside]
    cases found : s.sleepingSet[p] with
    | none => rfl
    | some q =>
      have entry : s.sleepingSet[p]? = some (some q) := by
        rw [List.getElem?_eq_getElem inside, found]
      have same := acc.slot p q entry
      subst same
      have positive := List.count_pos_iff.mpr (List.mem_of_getElem? entry)
      unfold queued at nowhere
      omega
  refine acc.of_put alive ?_ (fun q _ => setTcb_freed freed q) fun q => ?_
  · refine (acc.toShape.setTcb id (created_of_alive alive)).setEntry fun q same => ?_
    exact (Option.some.inj same).symm
  · change s.readyQueue.contents.count q + s.waitingQueue.contents.count q +
      (s.sleepingSet.set p (some p)).count (some q) = _
    rw [count_set_some vacant, queued]
    omega

/-- The thread in hand exits. -/
theorem exit (acc : s.Accounted n p) (id : tcb.id = p) (freed : tcb.freed = true)
    (created : p ≠ 0) : (s.setTcb p tcb).Accounted n 0 where
  toShape := acc.toShape.setTcb id created
  few := acc.few
  placed q := by
    have placed := acc.placed q
    change s.queued q = _
    rw [placed]
    by_cases same : q = p
    · simp [same, Alive, State.setTcb, freed]
    · have other : (s.setTcb p tcb).Alive n q ↔ s.Alive n q := by
        simp [Alive, State.setTcb, same]
      simp only [other]
      by_cases alive : s.Alive n q
      · simp [alive, same, created_of_alive alive]
      · simp [alive]

/-- The first ready thread is taken into the empty hand. -/
theorem dequeue (acc : s.Accounted n 0) (nonempty : s.readyQueue.head ≠ s.readyQueue.size) :
    { s with readyQueue := s.readyQueue.advance }.Accounted n
      (s.readyQueue.arr.getD s.readyQueue.head 0) := by
  have first := TcbQueue.contents_advance acc.ready nonempty
  refine acc.of_take ?_ (fun q _ => rfl) fun q => ?_
  · exact { acc.toShape with ready := TcbQueue.advance_valid acc.ready }
  · change s.readyQueue.advance.contents.count q + s.waitingQueue.contents.count q +
      s.sleepingSet.count (some q) + _ = _
    rw [queued, first, List.count_cons]
    simp only [beq_iff_eq]
    omega

end Accounted

end State
end NTUSP.Threads
