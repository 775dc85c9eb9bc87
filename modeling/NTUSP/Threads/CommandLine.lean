import NTUSP.Library.CString
import NTUSP.Threads.Overfull
import NTUSP.Threads.Values

/-!
# The command line of the thread program

`spawn_thread` reads the arguments behind the three leading numbers with one index, and creates
a thread for every group it reads. `Group` and `Splits` say which arguments these are, without
an index. Every read is checked against `argc`, and so is the store of `thread_setup`, which
has a place for `THREAD_MAX` threads.
-/

namespace NTUSP.Threads

open NTUSP.Library CString

/-- Why `spawn_thread` exits. -/
inductive UsageError where
  | notProvided (threadId : Nat) (missing : String)
  | unrecognized (threadId : Nat) (routineType : Int)
  deriving DecidableEq

/-- The line on `stderr`. -/
def UsageError.message : UsageError → String
  | .notProvided threadId missing =>
      "usage: thread " ++ toString threadId ++ ": " ++ missing ++ " not provided\n"
  | .unrecognized threadId routineType =>
      "usage: thread " ++ toString threadId ++ ": unrecognized routine type " ++
        toString routineType ++ "\n"

/-- How `spawn_thread` ends: at its end, by `exit`, or by an access that is not its memory. -/
inductive SpawnEnd where
  | finished (s : State)
  | exit (error : UsageError)
  | readsPastArgc
  | outsideReadyQueue

/-- What a turn of the loop reads. -/
inductive SpawnTurn where
  | create (routine : Routine) (threadArg : List Int) (argvIdx : Nat)
  | fail (error : UsageError)
  | readsPastArgc

/-- `atoi(argv[index])`. -/
def argAt (argv : List (List Char)) (index : Nat) : Option Int := argv[index]?.map atoi

/-- The next `count` arguments, for a thread with its routine. -/
def readArgs (argv : List (List Char)) (routine : Routine) (argvIdx count : Nat) : SpawnTurn :=
  match (List.range' argvIdx count).mapM (argAt argv) with
  | some threadArg => .create routine threadArg (argvIdx + count)
  | none => .readsPastArgc

/-- The turn of the loop that starts at `argvIdx`. -/
def spawnTurn (argv : List (List Char)) (argvIdx threadId : Nat) : SpawnTurn :=
  match argAt argv argvIdx with
  | none => .readsPastArgc
  | some routineType =>
      let argvIdx := argvIdx + 1
      if routineType = 1 then
        if argvIdx ≥ argv.length then .fail (.notProvided threadId "<n> is")
        else readArgs argv .fibonacci argvIdx 1
      else if routineType = 2 then
        if argvIdx ≥ argv.length then .fail (.notProvided threadId "<n> is")
        else readArgs argv .pm argvIdx 1
      else if routineType = 3 then
        if argvIdx + 3 ≥ argv.length then
          .fail (.notProvided threadId "<d_p> <d_s> <s> <b> are")
        else readArgs argv .enroll argvIdx 4
      else .fail (.unrecognized threadId routineType)

/-- The loop of `spawn_thread`, for at most `turns` turns. -/
def spawnFrom (argv : List (List Char)) : Nat → State → Nat → Nat → Option SpawnEnd
  | 0, _, _, _ => none
  | turns + 1, s, argvIdx, threadId =>
      if argvIdx < argv.length then
        match spawnTurn argv argvIdx threadId with
        | .readsPastArgc => some .readsPastArgc
        | .fail error => some (.exit error)
        | .create routine threadArg argvIdx =>
            if s.readyQueue.size < THREAD_MAX then
              spawnFrom argv turns (s.threadSetup routine threadId threadArg) argvIdx (threadId + 1)
            else some .outsideReadyQueue
      else some (.finished s)

/-- `spawn_thread` on the whole command line. -/
def spawnArgv (argv : List (List Char)) (s : State) : Option SpawnEnd :=
  spawnFrom argv (argv.length + 1) s 4 1

/-! ## The groups -/

/-- The arguments begin with a group of a thread, and go on with `rest`. -/
inductive Group : List (List Char) → Spec → List (List Char) → Prop where
  | fibonacci {head n : List Char} {rest : List (List Char)} (kind : atoi head = 1) :
      Group (head :: n :: rest) (.fibonacci (atoi n)) rest
  | pm {head n : List Char} {rest : List (List Char)} (kind : atoi head = 2) :
      Group (head :: n :: rest) (.pm (atoi n)) rest
  | enroll {head dP dS s b : List Char} {rest : List (List Char)} (kind : atoi head = 3) :
      Group (head :: dP :: dS :: s :: b :: rest)
        (.enroll (atoi dP) (atoi dS) (atoi s) (atoi b)) rest

/-- The arguments begin with the groups of some threads, in order, and go on with `rest`. -/
inductive Begins : List (List Char) → List Spec → List (List Char) → Prop where
  | nil {rest : List (List Char)} : Begins rest [] rest
  | cons {args others rest : List (List Char)} {spec : Spec} {specs : List Spec}
      (group : Group args spec others) (begins : Begins others specs rest) :
      Begins args (spec :: specs) rest

/-- The arguments are the groups of some threads, in order. -/
def Splits (args : List (List Char)) (specs : List Spec) : Prop := Begins args specs []

variable {argv args rest rest' : List (List Char)} {spec spec' : Spec} {specs specs' : List Spec}
  {s t : State} {argvIdx threadId turns : Nat}

/-- There is one way to read a group. -/
theorem Group.unique (group : Group args spec rest) (other : Group args spec' rest') :
    spec = spec' ∧ rest = rest' := by
  cases group with
  | fibonacci kind =>
    cases other with
    | fibonacci => exact ⟨rfl, rfl⟩
    | pm kind' => exact absurd (kind.symm.trans kind') (by decide)
    | enroll kind' => exact absurd (kind.symm.trans kind') (by decide)
  | pm kind =>
    cases other with
    | fibonacci kind' => exact absurd (kind.symm.trans kind') (by decide)
    | pm => exact ⟨rfl, rfl⟩
    | enroll kind' => exact absurd (kind.symm.trans kind') (by decide)
  | enroll kind =>
    cases other with
    | fibonacci kind' => exact absurd (kind.symm.trans kind') (by decide)
    | pm kind' => exact absurd (kind.symm.trans kind') (by decide)
    | enroll => exact ⟨rfl, rfl⟩

/-- A group begins with its kind, and is complete. -/
theorem Group.head {kind : List Char} (group : Group (kind :: args) spec rest) :
    (atoi kind = 1 ∨ atoi kind = 2) ∧ 1 ≤ args.length ∨ atoi kind = 3 ∧ 4 ≤ args.length := by
  cases group with
  | fibonacci one => exact .inl ⟨.inl one, by simp⟩
  | pm two => exact .inl ⟨.inr two, by simp⟩
  | enroll three => exact .inr ⟨three, by simp⟩

/-! ## One turn -/

/-- The arguments of a thread are the values of the next arguments of the command line. -/
theorem mapM_argAt {count : Nat} (inside : argvIdx + count ≤ argv.length) :
    (List.range' argvIdx count).mapM (argAt argv) =
      some (((argv.drop argvIdx).take count).map atoi) := by
  induction count generalizing argvIdx with
  | zero => simp
  | succ count ih =>
    have here : argvIdx < argv.length := by omega
    have read : argAt argv argvIdx = some (atoi argv[argvIdx]) := by
      simp [argAt, List.getElem?_eq_getElem here]
    rw [List.range'_succ, List.mapM_cons, read, ih (by omega), List.drop_eq_getElem_cons here]
    rfl

/-- With all its arguments there, a thread is created with them. -/
theorem readArgs_create (routine : Routine) {count : Nat}
    (inside : argvIdx + count ≤ argv.length) :
    readArgs argv routine argvIdx count =
      .create routine (((argv.drop argvIdx).take count).map atoi) (argvIdx + count) := by
  unfold readArgs
  rw [mapM_argAt inside]

/-- The four arguments of an `enroll` thread. -/
theorem drop_four (inside : argvIdx + 4 ≤ argv.length) :
    ∃ dP dS s b, argv.drop argvIdx = dP :: dS :: s :: b :: argv.drop (argvIdx + 4) := by
  rw [List.drop_eq_getElem_cons (by omega), List.drop_eq_getElem_cons (by omega),
    List.drop_eq_getElem_cons (by omega), List.drop_eq_getElem_cons (by omega)]
  exact ⟨_, _, _, _, rfl⟩

/-- What a turn can do: it reads a group, or the arguments begin with none and it fails. -/
theorem spawnTurn_cases (threadId : Nat) (inside : argvIdx < argv.length) :
    (∃ spec next, Group (argv.drop argvIdx) spec (argv.drop next) ∧ argvIdx < next ∧
      next ≤ argv.length ∧
      spawnTurn argv argvIdx threadId = .create spec.routine spec.args next) ∨
    ((∀ spec rest, ¬ Group (argv.drop argvIdx) spec rest) ∧
      ∃ error, spawnTurn argv argvIdx threadId = .fail error) := by
  have read : argAt argv argvIdx = some (atoi argv[argvIdx]) := by
    simp [argAt, List.getElem?_eq_getElem inside]
  have behind : (argv.drop (argvIdx + 1)).length = argv.length - (argvIdx + 1) :=
    List.length_drop
  rw [List.drop_eq_getElem_cons inside]
  unfold spawnTurn
  simp only [read]
  generalize argv[argvIdx] = kind
  by_cases short : atoi kind = 1 ∨ atoi kind = 2
  · by_cases last : argvIdx + 1 ≥ argv.length
    · refine .inr ⟨fun spec rest group => ?_, ?_⟩
      · have head := group.head
        omega
      · rcases short with one | two
        · exact ⟨_, by rw [if_pos one, if_pos last]⟩
        · exact ⟨_, by rw [if_neg (by omega), if_pos two, if_pos last]⟩
    · have here : argvIdx + 1 < argv.length := by omega
      have create := fun routine =>
        readArgs_create routine (show argvIdx + 1 + 1 ≤ argv.length from here)
      rw [List.drop_eq_getElem_cons here] at create ⊢
      rcases short with one | two
      · exact .inl ⟨_, argvIdx + 1 + 1, .fibonacci one, by omega, by omega,
          by rw [if_pos one, if_neg last, create]; rfl⟩
      · exact .inl ⟨_, argvIdx + 1 + 1, .pm two, by omega, by omega,
          by rw [if_neg (by omega), if_pos two, if_neg last, create]; rfl⟩
  · rw [if_neg fun one => short (.inl one), if_neg fun two => short (.inr two)]
    by_cases three : atoi kind = 3
    · rw [if_pos three]
      by_cases last : argvIdx + 1 + 3 ≥ argv.length
      · rw [if_pos last]
        refine .inr ⟨fun spec rest group => ?_, _, rfl⟩
        have head := group.head
        omega
      · obtain ⟨dP, dS, s, b, args⟩ := drop_four (by omega : argvIdx + 1 + 4 ≤ argv.length)
        rw [if_neg last, readArgs_create _ (by omega), args]
        exact .inl ⟨_, argvIdx + 1 + 4, .enroll three, by omega, by omega, rfl⟩
    · rw [if_neg three]
      refine .inr ⟨fun spec rest group => ?_, _, rfl⟩
      have head := group.head
      omega

/-! ## The loop -/

/-- How the loop ends on the arguments `args`, from state `s` with the next id `threadId`. -/
inductive Outcome : State → Nat → List (List Char) → SpawnEnd → Prop where
  | finished {s : State} {threadId : Nat} : Outcome s threadId [] (.finished s)
  | fail {s : State} {threadId : Nat} {args : List (List Char)} {error : UsageError}
      (some : args ≠ []) (none : ∀ spec rest, ¬ Group args spec rest) :
      Outcome s threadId args (.exit error)
  | full {s : State} {threadId : Nat} {args rest : List (List Char)} {spec : Spec}
      (group : Group args spec rest) (full : THREAD_MAX ≤ s.readyQueue.size) :
      Outcome s threadId args .outsideReadyQueue
  | create {s : State} {threadId : Nat} {args rest : List (List Char)} {spec : Spec}
      {ends : SpawnEnd} (group : Group args spec rest) (room : s.readyQueue.size < THREAD_MAX)
      (later : Outcome (s.threadSetup spec.routine threadId spec.args) (threadId + 1) rest ends) :
      Outcome s threadId args ends

/-- The loop ends within a turn for every argument left, and one more. -/
theorem spawnFrom_outcome (s : State) (threadId : Nat) (begun : 0 < turns) (enough : argv.length < argvIdx + turns) :
    ∃ ends, spawnFrom argv turns s argvIdx threadId = some ends ∧
      Outcome s threadId (argv.drop argvIdx) ends := by
  induction turns generalizing s argvIdx threadId with
  | zero => exact absurd begun (Nat.lt_irrefl 0)
  | succ turns ih =>
    unfold spawnFrom
    by_cases inside : argvIdx < argv.length
    · rw [if_pos inside]
      have some : argv.drop argvIdx ≠ [] := by simp [inside]
      rcases spawnTurn_cases threadId inside with
        ⟨spec, next, group, further, most, turn⟩ | ⟨none, error, turn⟩
      · rw [turn]
        by_cases room : s.readyQueue.size < THREAD_MAX
        · obtain ⟨ends, runs, later⟩ :=
            ih (s.threadSetup spec.routine threadId spec.args) (threadId + 1)
              (by omega : 0 < turns) (by omega : argv.length < next + turns)
          exact ⟨ends, by simpa only [if_pos room] using runs, .create group room later⟩
        · exact ⟨_, by simp only [if_neg room], .full group (Nat.not_lt.mp room)⟩
      · rw [turn]
        exact ⟨_, rfl, .fail some none⟩
    · rw [if_neg inside, List.drop_eq_nil_of_le (Nat.not_lt.mp inside)]
      exact ⟨_, rfl, .finished⟩

/-- `thread_setup` takes one place. -/
theorem threadSetup_size (s : State) (routine : Routine) (id : Nat) (threadArg : List Int) :
    (s.threadSetup routine id threadArg).readyQueue.size = s.readyQueue.size + 1 := rfl

namespace Outcome

variable {ends : SpawnEnd} {error : UsageError}

/-- Every argument read is one of the command line. -/
theorem ne_readsPastArgc (outcome : Outcome s threadId args ends) : ends ≠ .readsPastArgc := by
  induction outcome with
  | create _ _ _ ih => exact ih
  | _ => exact nofun

/-- At its end the loop has read groups only and has created their threads. -/
theorem of_finished (outcome : Outcome s threadId args (.finished t)) :
    ∃ specs, Splits args specs ∧ t = spawnThread s threadId specs := by
  generalize same : SpawnEnd.finished t = ends at outcome
  induction outcome with
  | finished =>
    cases same
    exact ⟨[], .nil, rfl⟩
  | create group _ _ ih =>
    obtain ⟨specs, splits, created⟩ := ih same
    exact ⟨_ :: specs, .cons group splits, created⟩
  | fail => cases same
  | full => cases same

/-- With places for all of them, the loop creates a thread for every group. -/
theorem of_splits (outcome : Outcome s threadId args ends) (splits : Splits args specs)
    (room : s.readyQueue.size + specs.length ≤ THREAD_MAX) :
    ends = .finished (spawnThread s threadId specs) := by
  induction outcome generalizing specs with
  | finished =>
    cases splits with
    | nil => rfl
    | cons group _ => cases group
  | fail some none =>
    cases splits with
    | nil => exact absurd rfl some
    | cons group _ => exact absurd group (none _ _)
  | full group full =>
    cases splits with
    | nil => cases group
    | cons _ _ =>
      rw [List.length_cons] at room
      omega
  | create group _ _ ih =>
    cases splits with
    | nil => cases group
    | cons group' begins =>
      obtain ⟨rfl, rfl⟩ := group.unique group'
      rw [List.length_cons] at room
      refine ih begins ?_
      simp only [threadSetup_size]
      omega

/-- The loop leaves the array behind more groups than there are places. -/
theorem of_outside (outcome : Outcome s threadId args .outsideReadyQueue) :
    ∃ specs rest, Begins args specs rest ∧ THREAD_MAX < s.readyQueue.size + specs.length := by
  generalize same : SpawnEnd.outsideReadyQueue = ends at outcome
  induction outcome with
  | finished => cases same
  | fail => cases same
  | full group full => exact ⟨[_], _, .cons group .nil, Nat.lt_succ_of_le full⟩
  | create group _ _ ih =>
    obtain ⟨specs, rest, begins, many⟩ := ih same
    refine ⟨_ :: specs, rest, .cons group begins, ?_⟩
    rw [threadSetup_size] at many
    rw [List.length_cons]
    omega

/-- Arguments that begin with more groups than there are places lead out of the array. -/
theorem of_begins (outcome : Outcome s threadId args ends) (begins : Begins args specs rest)
    (inside : s.readyQueue.size ≤ THREAD_MAX)
    (many : THREAD_MAX < s.readyQueue.size + specs.length) : ends = .outsideReadyQueue := by
  have begun : specs ≠ [] := by
    rintro rfl
    exact absurd many (Nat.not_lt.mpr inside)
  induction outcome generalizing specs with
  | full => rfl
  | finished =>
    cases begins with
    | nil => exact absurd rfl begun
    | cons group _ => cases group
  | fail _ none =>
    cases begins with
    | nil => exact absurd rfl begun
    | cons group _ => exact absurd group (none _ _)
  | create group room _ ih =>
    cases begins with
    | nil => exact absurd rfl begun
    | cons group' begins =>
      obtain ⟨rfl, rfl⟩ := group.unique group'
      rw [List.length_cons] at many
      refine ih begins room ?_ ?_
      · rw [threadSetup_size]
        omega
      · rintro rfl
        rw [List.length_nil] at many
        omega

end Outcome

/-- The threads of the command line, as `spawn_thread` leaves them: one for each of `specs`, in
order and with the ids from 1 on, with its routine and its arguments. -/
structure Created (s : State) (specs : List Spec) : Prop where
  size : s.readyQueue.size = specs.length
  order : ∀ i < specs.length, s.readyQueue.arr.getD i 0 = i + 1
  setUp : s.out = (specs.zipIdx 1).map fun (spec, id) => .setUp id spec.routine
  ids : ∀ i < specs.length, (s.tcbs (i + 1)).id = i + 1
  own : ∀ i spec, specs[i]? = some spec →
    (s.tcbs (i + 1)).routine = spec.routine ∧ (s.tcbs (i + 1)).args = spec.args

/-- `spawn_thread` accepts exactly the sequences of groups, creates their threads, and exits on
all other arguments. -/
structure Spawns (argv : List (List Char)) (s : State) : Prop where
  accepts_iff : (∃ t, spawnArgv argv s = some (.finished t)) ↔ ∃ specs, Splits (argv.drop 4) specs
  created : ∀ t, spawnArgv argv s = some (.finished t) →
    ∃ specs, Splits (argv.drop 4) specs ∧ Created t specs
  inside : spawnArgv argv s ≠ some .readsPastArgc
  ends : (∃ t, spawnArgv argv s = some (.finished t)) ∨
    ∃ error, spawnArgv argv s = some (.exit error)

variable {timeSlice qP qS : Int}

/-- The lines of the creation. -/
theorem spawnThread_setUp (s : State) (id : Nat) (specs : List Spec) :
    (spawnThread s id specs).out =
      s.out ++ (specs.zipIdx id).map fun (spec, id) => .setUp id spec.routine := by
  induction specs generalizing s id with
  | nil => simp [spawnThread]
  | cons spec rest ih =>
    rw [spawnThread, ih]
    simp [State.threadSetup, State.setTcb, State.print]

/-- The creation of up to `THREAD_MAX` threads. -/
theorem created_spawnThread (timeSlice qP qS : Int) (few : specs.length ≤ THREAD_MAX) :
    Created (spawnThread (blank timeSlice qP qS) 1 specs) specs := by
  have filled := State.filled timeSlice qP qS few
  refine
    { size := filled.tail
      order := filled.order
      setUp := ?_
      ids := fun i _ => filled.ids (i + 1)
      own := fun i spec named => ?_ }
  · rw [spawnThread_setUp]
    exact List.nil_append _
  · obtain ⟨routine, args, _⟩ := State.spawnThread_own (blank timeSlice qP qS) 1 specs named
    rw [Nat.add_comm i 1]
    exact ⟨routine, args⟩

/-- `spawn_thread` does what its groups say on exactly the command lines that begin with no more
groups than there are places for threads. -/
theorem spawns_iff_few :
    Spawns argv (blank timeSlice qP qS) ↔
      ∀ specs rest, Begins (argv.drop 4) specs rest → specs.length ≤ THREAD_MAX := by
  obtain ⟨ends, runs, outcome⟩ :=
    spawnFrom_outcome (blank timeSlice qP qS) 1 (by omega : 0 < argv.length + 1)
      (by omega : argv.length < 4 + (argv.length + 1))
  change spawnArgv argv (blank timeSlice qP qS) = some ends at runs
  have none : (blank timeSlice qP qS).readyQueue.size = 0 := rfl
  constructor
  · intro spawns specs rest begins
    refine Nat.not_lt.mp fun many => ?_
    have outside : ends = .outsideReadyQueue :=
      outcome.of_begins begins (by omega) (by omega)
    rw [outside] at runs
    rcases spawns.ends with ⟨t, finished⟩ | ⟨error, exits⟩
    · rw [runs] at finished
      cases finished
    · rw [runs] at exits
      cases exits
  · intro few
    have finishes : ∀ specs, Splits (argv.drop 4) specs →
        ends = .finished (spawnThread (blank timeSlice qP qS) 1 specs) := by
      intro specs splits
      have most := few specs [] splits
      exact outcome.of_splits splits (by omega)
    cases ends with
    | finished t =>
      obtain ⟨specs, splits, created⟩ := outcome.of_finished
      refine ⟨⟨fun _ => ⟨specs, splits⟩, fun _ => ⟨t, runs⟩⟩, fun t' finished => ?_, ?_, ?_⟩
      · cases runs.symm.trans finished
        refine ⟨specs, splits, ?_⟩
        rw [created]
        exact created_spawnThread timeSlice qP qS (few specs [] splits)
      · rw [runs]
        exact nofun
      · exact .inl ⟨t, runs⟩
    | exit error =>
      refine ⟨⟨?_, ?_⟩, fun t finished => ?_, ?_, .inr ⟨error, runs⟩⟩
      · rintro ⟨t, finished⟩
        cases runs.symm.trans finished
      · rintro ⟨specs, splits⟩
        cases finishes specs splits
      · cases runs.symm.trans finished
      · rw [runs]
        exact nofun
    | readsPastArgc => exact absurd rfl outcome.ne_readsPastArgc
    | outsideReadyQueue =>
      obtain ⟨specs, rest, begins, many⟩ := outcome.of_outside
      have most := few specs rest begins
      omega

/-- Groups of one kind, one after the other. -/
theorem splits_replicate (group : ∀ rest, Group (args ++ rest) spec rest) (count : Nat) :
    Splits (List.replicate count args).flatten (List.replicate count spec) := by
  induction count with
  | zero => exact .nil
  | succ count ih =>
    rw [List.replicate_succ, List.flatten_cons, List.replicate_succ]
    exact .cons (group _) ih

/-- One more `fibonacci` thread than there are places. -/
def overlongLine : List (List Char) :=
  ["main", "1", "1", "1"].map String.toList ++
    (List.replicate 101 (["1", "1"].map String.toList)).flatten

/-- The arguments are groups, and `spawn_thread` creates a hundred threads and writes the next
one behind the array. -/
theorem overlong_outside :
    (∃ specs, Splits (overlongLine.drop 4) specs) ∧
      spawnArgv overlongLine (blank 1 1 1) = some .outsideReadyQueue ∧
      ¬ Spawns overlongLine (blank 1 1 1) := by
  have splits : Splits (overlongLine.drop 4) (List.replicate 101 (.fibonacci 1)) :=
    splits_replicate (fun rest => .fibonacci (by decide)) 101
  obtain ⟨ends, runs, outcome⟩ :=
    spawnFrom_outcome (blank 1 1 1) 1 (by omega : 0 < overlongLine.length + 1)
      (by omega : overlongLine.length < 4 + (overlongLine.length + 1))
  have outside : ends = .outsideReadyQueue :=
    outcome.of_begins splits (by decide) (by decide)
  have left : spawnArgv overlongLine (blank 1 1 1) = some .outsideReadyQueue :=
    runs.trans (congrArg some outside)
  refine ⟨⟨_, splits⟩, left, fun spawns => ?_⟩
  obtain ⟨t, finished⟩ := spawns.accepts_iff.mpr ⟨_, splits⟩
  cases left.symm.trans finished

end NTUSP.Threads
