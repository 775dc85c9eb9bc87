import NTUSP.Threads.Slots

/-!
# The scan of the waiting queue

The scan looks at every waiter and appends those that may proceed to the ready queue, but
it removes whatever stands at `head`. So it takes the right waiters out exactly if they
stand in front of all others: with readers inside, no reader may be behind a writer. A
reader waits only while somebody writes, so no run scans such a queue.
-/

namespace NTUSP.Threads

open NTUSP.Library

namespace State

variable {s : State}

/-- Waiter `p` may proceed: a reader while nobody writes, a writer while nobody is inside. -/
def Admits (s : State) (p : Nat) : Prop :=
  ((s.tcbs p).waitingFor = 4 ∧ s.writeCount = 0) ∨
    ((s.tcbs p).waitingFor = 5 ∧ s.writeCount = 0 ∧ s.readCount = 0)

instance (s : State) (p : Nat) : Decidable (s.Admits p) := by
  unfold Admits
  infer_instance

theorem mayProceed_eq_admits (s : State) (p : Nat) : s.mayProceed p = decide (s.Admits p) := by
  unfold mayProceed Admits
  by_cases four : (s.tcbs p).waitingFor = 4
  · simp [four]
  · by_cases five : (s.tcbs p).waitingFor = 5
    · simp [five]
    · simp [four, five]

/-- The waiters `ps` are appended to the ready queue, and as many are taken out at `head`. -/
def letGo (s : State) : List Nat → State
  | [] => s
  | p :: ps => { s.readyPush p with waitingQueue := s.waitingQueue.advance }.letGo ps

/-- The scan lets go the waiters it finds that may proceed. -/
theorem waitScanFrom_eq_letGo (s : State) (i count : Nat) :
    s.waitScanFrom i count =
      s.letGo (((List.range' i count).map fun j => s.waitingQueue.arr.getD j 0).filter
        s.mayProceed) := by
  induction count generalizing s i with
  | zero => rfl
  | succ count ih =>
    rw [waitScanFrom, ih, List.range'_succ, List.map_cons]
    by_cases may : s.mayProceed (s.waitingQueue.arr.getD i 0) = true
    · rw [List.filter_cons_of_pos may]
      unfold waitScanStep
      dsimp only
      rw [if_pos may]
      rfl
    · rw [List.filter_cons_of_neg may]
      unfold waitScanStep
      dsimp only
      rw [if_neg may]

/-- What letting waiters go does to the two queues, while there is room and nobody is taken
out of an empty queue. -/
theorem letGo_contents {ps : List Nat} (ready : s.readyQueue.Valid) (waiting : s.waitingQueue.Valid)
    (room : s.readyQueue.contents.length + ps.length < THREAD_MAX)
    (enough : ps.length ≤ s.waitingQueue.contents.length) :
    (s.letGo ps).readyQueue.contents = s.readyQueue.contents ++ ps ∧
      (s.letGo ps).waitingQueue.contents = s.waitingQueue.contents.drop ps.length := by
  induction ps generalizing s with
  | nil => exact ⟨(List.append_nil _).symm, rfl⟩
  | cons p ps ih =>
    rw [List.length_cons] at room enough
    have nonempty : s.waitingQueue.head ≠ s.waitingQueue.size := by
      intro empty
      rw [(TcbQueue.contents_eq_nil waiting).mpr empty, List.length_nil] at enough
      omega
    have grown := TcbQueue.contents_enqueue ready p (by omega)
    have shrunk := TcbQueue.contents_advance waiting nonempty
    rw [shrunk, List.length_cons] at enough
    obtain ⟨more, fewer⟩ := ih (s := { s.readyPush p with waitingQueue := s.waitingQueue.advance })
      (TcbQueue.enqueue_valid ready p) (TcbQueue.advance_valid waiting)
      (by
        change (s.readyQueue.enqueue p).contents.length + ps.length < THREAD_MAX
        rw [grown, List.length_append, List.length_singleton]
        omega)
      (by
        change ps.length ≤ s.waitingQueue.advance.contents.length
        omega)
    refine ⟨more.trans ?_, fewer.trans ?_⟩
    · change (s.readyQueue.enqueue p).contents ++ ps = _
      rw [grown, List.append_assoc, List.singleton_append]
    · rw [shrunk, List.length_cons, List.drop_succ_cons]

/-- The scan visits what the queue lists, as long as the queue has not wrapped. -/
theorem waiting_visited (waiting : s.waitingQueue.Valid) (ordered : ¬ s.waitingQueue.Wrapped) :
    (List.range' s.waitingQueue.head (s.waitingQueue.size - s.waitingQueue.head)).map
      (fun j => s.waitingQueue.arr.getD j 0) = s.waitingQueue.contents := by
  have sizeIn := waiting.size
  have forward : s.waitingQueue.head ≤ s.waitingQueue.size := Nat.le_of_not_lt ordered
  unfold TcbQueue.contents Ring.segment Ring.window
  rw [Ring.gap_of_le forward sizeIn, List.range'_eq_map_range, List.map_map]
  refine List.map_congr_left fun k member => ?_
  have inside := List.mem_range.mp member
  rw [Function.comp_apply, Nat.mod_eq_of_lt (by omega)]
  rfl

/-- The scan in terms of what the queues list. -/
theorem waitScan_contents (ready : s.readyQueue.Valid) (waiting : s.waitingQueue.Valid)
    (ordered : ¬ s.waitingQueue.Wrapped)
    (room : s.readyQueue.contents.length + s.waitingQueue.contents.countP s.mayProceed <
      THREAD_MAX) :
    s.waitScan.readyQueue.contents =
        s.readyQueue.contents ++ s.waitingQueue.contents.filter s.mayProceed ∧
      s.waitScan.waitingQueue.contents =
        s.waitingQueue.contents.drop (s.waitingQueue.contents.countP s.mayProceed) := by
  have scan : s.waitScan = s.letGo (s.waitingQueue.contents.filter s.mayProceed) := by
    rw [← waiting_visited waiting ordered]
    exact waitScanFrom_eq_letGo s _ _
  rw [scan, List.countP_eq_length_filter]
  rw [List.countP_eq_length_filter] at room
  exact letGo_contents ready waiting room (List.length_filter_le ..)

/-- The waiters that may proceed are moved behind the ready threads, and the others stay. -/
structure ScansExactly (s : State) : Prop where
  ready : s.waitScan.readyQueue.contents =
    s.readyQueue.contents ++ s.waitingQueue.contents.filter fun p => s.Admits p
  waiting : s.waitScan.waitingQueue.contents =
    s.waitingQueue.contents.filter fun p => ¬ s.Admits p

/-- What the scan needs: the waiting queue has not wrapped, so that its indices from `head` to
`size` are its entries, everybody in it waits for the lock, and the ready queue has room for
those who may proceed. -/
structure Scannable (s : State) : Prop where
  ready : s.readyQueue.Valid
  waiting : s.waitingQueue.Valid
  ordered : s.waitingQueue.head ≤ s.waitingQueue.size
  waiters : ∀ p ∈ s.waitingQueue.contents, (s.tcbs p).waitingFor = 4 ∨ (s.tcbs p).waitingFor = 5
  room : s.readyQueue.contents.length +
    s.waitingQueue.contents.countP (fun p => decide (s.Admits p)) < THREAD_MAX

/-- No reader stands behind a writer. -/
def ReadersFirst (s : State) : Prop :=
  s.waitingQueue.contents.Pairwise fun first second =>
    ¬ ((s.tcbs first).waitingFor = 5 ∧ (s.tcbs second).waitingFor = 4)

instance (s : State) : Decidable s.ReadersFirst := by
  unfold ReadersFirst
  infer_instance

/-- Those who may proceed stand in front unless a reader is behind a writer and only readers
may proceed. -/
theorem admitted_first_iff (scannable : s.Scannable) :
    (s.waitingQueue.contents.Pairwise fun first second =>
        s.mayProceed second = true → s.mayProceed first = true) ↔
      s.writeCount ≠ 0 ∨ s.readCount = 0 ∨ s.ReadersFirst := by
  have waiters := scannable.waiters
  by_cases unwritten : s.writeCount = 0
  · by_cases unread : s.readCount = 0
    · refine iff_of_true ?_ (.inr (.inl unread))
      refine List.pairwise_of_forall_mem_list fun first member second _ _ => ?_
      rw [mayProceed_eq_admits, decide_eq_true_iff]
      exact (waiters first member).imp (⟨·, unwritten⟩) (⟨·, unwritten, unread⟩)
    · have may : ∀ p, s.mayProceed p = true ↔ (s.tcbs p).waitingFor = 4 := by
        intro p
        rw [mayProceed_eq_admits, decide_eq_true_iff]
        simp [Admits, unwritten, unread]
      simp only [unwritten, unread, ne_eq, not_true, false_or]
      unfold ReadersFirst
      refine List.Pairwise.iff_of_mem fun {first second} member _ => ?_
      rw [may, may, not_and]
      have alternative := waiters first member
      omega
  · refine iff_of_true ?_ (.inl unwritten)
    refine List.pairwise_of_forall_mem_list fun first _ second _ may => ?_
    rw [mayProceed_eq_admits, decide_eq_true_iff] at may
    simp [Admits, unwritten] at may

/-- The scan loses and duplicates nobody exactly if a writer is inside, or no reader, or no
reader waits behind a writer. -/
theorem scansExactly_iff (scannable : s.Scannable) :
    s.ScansExactly ↔ s.writeCount ≠ 0 ∨ s.readCount = 0 ∨ s.ReadersFirst := by
  have may : s.mayProceed = fun p => decide (s.Admits p) := funext s.mayProceed_eq_admits
  have room := scannable.room
  rw [← may] at room
  obtain ⟨ready, waiting⟩ := waitScan_contents scannable.ready scannable.waiting
    (Nat.not_lt.mpr scannable.ordered) room
  rw [← admitted_first_iff scannable, ← Counting.drop_countP_eq_filter_iff, ← waiting]
  have others : (fun p => !s.mayProceed p) = fun p => decide (¬ s.Admits p) := by
    funext p
    rw [may, decide_not]
  rw [others]
  constructor
  · exact fun exact' => exact'.waiting
  · intro same
    refine ⟨?_, same⟩
    rw [ready, may]

/-! ## The queues that are scanned -/

variable {n hand : Nat} {timeSlice qP qS : Int} {specs : List Spec}

/-- The states in which the scan of the waiting queue begins: `create_idle` and the scan of the
sleepers stand before it in the first pass and in each pass that a step of a run enters. -/
inductive BeginsScan (timeSlice qP qS : Int) (specs : List Spec) : State → Prop where
  | first : BeginsScan timeSlice qP qS specs
      (spawnThread (blank timeSlice qP qS) 1 specs).createIdle.sleepScan
  | later {s : State} {pending : Option Signal} {pass : State × Nat}
      (reached : (machine timeSlice qP qS specs).Reach Machine.anyStep s)
      (enters : s.entry pending = some pass) :
      BeginsScan timeSlice qP qS specs pass.1.createIdle.sleepScan

theorem BeginsScan.entered (few : specs.length < THREAD_MAX)
    (begins : BeginsScan timeSlice qP qS specs s) : ∃ hand, s.Entered specs.length hand := by
  cases begins with
  | first => exact ⟨_, (spawned timeSlice qP qS few).entered.slept.1⟩
  | later reached enters =>
    exact ⟨_, ((reach_consistent few reached).entry_enters enters).1.slept.1⟩

/-- The ready threads and the waiters are distinct, so they fit into the ready queue together. -/
theorem Entered.scannable (entered : s.Entered n hand)
    (ordered : s.waitingQueue.head ≤ s.waitingQueue.size) : s.Scannable where
  ready := entered.ready
  waiting := entered.waiting
  ordered := ordered
  waiters p member := (entered.parked p member).imp And.left And.left
  room := by
    rw [List.countP_eq_length_filter, ← List.length_append]
    refine Nat.lt_of_le_of_lt (entered.listed_length fun q => ?_) entered.few
    have fewer := (List.filter_sublist (p := fun p => decide (s.Admits p))
      (l := s.waitingQueue.contents)).count_le q
    rw [List.count_append]
    unfold queued
    omega

/-- With only readers inside, everybody who waits is a writer. -/
theorem Entered.fitting (entered : s.Entered n hand)
    (ordered : s.waitingQueue.head ≤ s.waitingQueue.size) :
    s.writeCount ≠ 0 ∨ s.readCount = 0 ∨ s.ReadersFirst := by
  by_cases unwritten : s.writeCount = 0
  · by_cases unread : s.readCount = 0
    · exact .inr (.inl unread)
    · refine .inr (.inr (List.pairwise_of_forall_mem_list fun _ _ second member => ?_))
      have writes := entered.uniform (Nat.not_lt.mpr ordered) unwritten unread second member
      rw [writes]
      rintro ⟨_, reads⟩
      cases reads
  · exact .inl unwritten

/-- The scan moves exactly those who may proceed if and only if a writer is inside, or no
reader, or no reader waits behind a writer; and in every run of fewer than `THREAD_MAX`
threads it does so whenever it begins with a waiting queue that has not wrapped. -/
theorem waitScan_exact :
    (∀ s : State, s.Scannable →
      (s.ScansExactly ↔ s.writeCount ≠ 0 ∨ s.readCount = 0 ∨ s.ReadersFirst)) ∧
    ∀ (timeSlice qP qS : Int) (specs : List Spec) (s : State), specs.length < THREAD_MAX →
      BeginsScan timeSlice qP qS specs s → s.waitingQueue.head ≤ s.waitingQueue.size →
      (s.writeCount ≠ 0 ∨ s.readCount = 0 ∨ s.ReadersFirst) ∧ s.ScansExactly := by
  refine ⟨fun s => scansExactly_iff, fun timeSlice qP qS specs s few begins ordered => ?_⟩
  obtain ⟨hand, entered⟩ := begins.entered few
  have fitting := entered.fitting ordered
  exact ⟨fitting, (scansExactly_iff (entered.scannable ordered)).mpr fitting⟩

/-- Readers are inside, and a reader waits behind a writer. -/
def readerBehindWriter : State :=
  { blank 1 0 0 with
    tcbs := fun p => { (blank 1 0 0).tcbs p with waitingFor := if p = 1 then 5 else 4 }
    readCount := 1
    waitingQueue := (TcbQueue.empty.enqueue 1).enqueue 2 }

theorem readerBehindWriter_scannable : readerBehindWriter.Scannable where
  ready := TcbQueue.empty_valid
  waiting := TcbQueue.enqueue_valid (TcbQueue.enqueue_valid TcbQueue.empty_valid 1) 2
  ordered := by decide
  waiters := by decide +kernel
  room := by decide +kernel

/-- A reader waits in front of a writer, with readers inside. -/
def readerBeforeWriter : State :=
  { readerBehindWriter with waitingQueue := (TcbQueue.empty.enqueue 2).enqueue 1 }

theorem readerBeforeWriter_scannable : readerBeforeWriter.Scannable where
  ready := TcbQueue.empty_valid
  waiting := TcbQueue.enqueue_valid (TcbQueue.enqueue_valid TcbQueue.empty_valid 2) 1
  ordered := by decide
  waiters := by decide +kernel
  room := by decide +kernel

/-- Two threads in `enroll`: 2 waits to write, 1 leaves, and the scan of that pass lets 2 go. -/
theorem waitScan_exact_release :
    readerBeforeWriter.ScansExactly ∧
      ∃ s, BeginsScan 1 1 1 (List.replicate 2 (.enroll 1 1 0 0)) s ∧
        s.waitingQueue.contents = [2] ∧ s.ScansExactly := by
  refine ⟨(waitScan_exact.1 _ readerBeforeWriter_scannable).mpr
    (.inr (.inr (by decide +kernel))), ?_⟩
  have ran : ((machine 1 1 1 (List.replicate 2 (.enroll 1 1 0 0))).exec (fun _ _ => true)
      (start 1 1 1 (List.replicate 2 (.enroll 1 1 0 0)))
      [none, none, none, none, some .SIGTSTP, none]).bind (fun s => (s.entry none).map fun pass =>
        (pass.1.createIdle.sleepScan.waitingQueue.contents,
          decide (pass.1.createIdle.sleepScan.waitingQueue.head ≤
            pass.1.createIdle.sleepScan.waitingQueue.size))) = some ([2], true) := by
    decide +kernel
  obtain ⟨s, runs, seen⟩ := Option.bind_eq_some_iff.mp ran
  obtain ⟨pass, enters, same⟩ := Option.map_eq_some_iff.mp seen
  obtain ⟨waits, ordered⟩ := Prod.mk.inj same
  have begins : BeginsScan 1 1 1 (List.replicate 2 (.enroll 1 1 0 0))
      pass.1.createIdle.sleepScan :=
    .later ((Machine.Reach.initial rfl).exec (fun _ _ _ => trivial) runs) enters
  exact ⟨_, begins, waits,
    (waitScan_exact.2 1 1 1 _ _ (by decide) begins (of_decide_eq_true ordered)).2⟩

/-- The writer is lost, and the reader is in both queues. -/
theorem scan_loses_writer :
    readerBehindWriter.Scannable ∧
      readerBehindWriter.waitScan.readyQueue.contents = [2] ∧
      readerBehindWriter.waitScan.waitingQueue.contents = [2] ∧
      ¬ readerBehindWriter.ScansExactly := by
  refine ⟨readerBehindWriter_scannable, by decide +kernel, by decide +kernel, fun exact' => ?_⟩
  have left : readerBehindWriter.waitScan.waitingQueue.contents = [1] := by
    rw [exact'.waiting]
    decide +kernel
  have right : readerBehindWriter.waitScan.waitingQueue.contents = [2] := by decide +kernel
  rw [left] at right
  cases right

end State
end NTUSP.Threads
