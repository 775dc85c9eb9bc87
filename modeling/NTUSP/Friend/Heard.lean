import NTUSP.Friend.Serving

/-!
# Whom the friends have been told to meet

Every line in a pipe is one of the user's, and they stay in order: a process hands a line on while
it attends to it, and takes the next one only then. So a line reaches a process at most once, and
the friends of each process are those that the lines it has heard tell it to meet, in their order.
Not_Tako hears every line. This needs no condition on the schedule or on what a read gets.
-/

namespace NTUSP.Friend

open NTUSP.Library CString

/-- The text of lines in a pipe. -/
def written (lines : List (List Char)) : List Char := lines.flatMap fun line => line ++ ['\n']

/-- The argument of the friend that a line tells the process of this name to meet. -/
def askedBy (name line : List Char) : Option (List Char) :=
  match parse line with
  | some (command, parent, childName) =>
      if command = "Meet".toList ∧ parent = name then some (childName.take MAX_FRIEND_INFO_LEN)
      else none
  | none => none

/-- The friends that lines tell a process to meet. -/
def asked (lines : List (List Char)) (name : List Char) : List (List Char) :=
  lines.filterMap (askedBy name)

/-- The arguments of the friends of a process. -/
def infos (friends : Forest Proc) : List (List Char) := friends.roots.map Proc.info

/-- The command that a process attends to. -/
def Pc.call? : Pc → Option Call
  | .ask call _ _ | .await call _ _ | .relay call _ _ => some call
  | .fork call | .tell call | .report call => some call
  | .start | .loop => none

/-- The lines that a process has done with as a parent, of those it has heard. -/
def Pc.acted (heard : List (List Char)) : Pc → List (List Char)
  | .fork _ => heard.dropLast
  | _ => heard

/-- The lines that friend number `j` of a process can have been handed, of those the process has
heard. -/
def Pc.handed (heard : List (List Char)) : Pc → Nat → List (List Char)
  | .ask _ k _, j => if j < k then heard else heard.dropLast
  | .await _ k _, j | .relay _ k _, j => if j < k + 1 then heard else heard.dropLast
  | .fork _, _ | .tell _, _ => heard.dropLast
  | _, _ => heard

/-- The call is that of the last line. -/
def Call.Last (heard : List (List Char)) (call : Call) : Prop :=
  ∃ earlier line, heard = earlier ++ [line] ∧ call.toChildCmd = line ++ ['\n'] ∧
    parse line = some ("Meet".toList, call.parent, call.childName)

/-- A process has taken the lines `heard` in its loop and has the lines `ahead` in its pipe. Its
friends are those it has been told to meet. -/
structure Proc.Obeys (heard ahead : List (List Char)) (p : Proc) (friends : Forest Proc) :
    Prop where
  stdin : p.stdin = written ahead
  plain : ∀ line ∈ heard ++ ahead, '\n' ∉ line
  current : ∀ call, p.pc.call? = some call → call.Last heard
  own : ∀ call, p.pc = .fork call → call.parent = p.name
  alone : p.pc = .start → heard = [] ∧ friends = .nil
  met : infos friends = asked (p.pc.acted heard) p.name

/-- Every process of a forest obeys some lines. Those of tree number `j` are among `given j`, and
those of a friend among the ones its parent has handed to it. -/
inductive Heard : (Nat → List (List Char)) → Forest Proc → Prop where
  | nil {given} : Heard given .nil
  | node {given p friends others} (heard ahead : List (List Char))
      (among : (heard ++ ahead).Sublist (given 0)) (obeys : p.Obeys heard ahead friends)
      (below : Heard (p.pc.handed heard) friends)
      (beside : Heard (fun j => given (j + 1)) others) :
      Heard given (.node p friends others)

section

variable {p p' : Proc} {friends friends' forest : Forest Proc}
  {heard ahead : List (List Char)} {given given' : Nat → List (List Char)}
  {line : List Char} {k count : Nat}

/-! ## Lines -/

theorem written_append (first second : List (List Char)) :
    written (first ++ second) = written first ++ written second :=
  List.flatMap_append

theorem readLine_nil : readLine (written []) = none := rfl

theorem readLine_cons (whole : '\n' ∉ line) (rest : List (List Char)) :
    readLine (written (line :: rest)) = some (line, written rest) := by
  have text : written (line :: rest) = line ++ '\n' :: written rest := by
    simp [written]
  rw [text, readLine_append whole]

theorem asked_mono {lines lines' : List (List Char)} (less : lines.Sublist lines')
    (name : List Char) : (asked lines name).Sublist (asked lines' name) :=
  less.filterMap _

/-- A line names the friend of the process it is about. -/
theorem asked_snoc {call : Call} (earlier : List (List Char))
    (parsed : parse line = some ("Meet".toList, call.parent, call.childName)) :
    asked (earlier ++ [line]) call.parent =
      asked earlier call.parent ++ [call.childName.take MAX_FRIEND_INFO_LEN] := by
  have this : askedBy call.parent line = some (call.childName.take MAX_FRIEND_INFO_LEN) := by
    unfold askedBy
    rw [parsed]
    exact if_pos ⟨rfl, rfl⟩
  unfold asked
  rw [List.filterMap_append, List.filterMap_cons_some this]
  rfl

/-- A line about another process names none. -/
theorem asked_snoc_other {call : Call} {name : List Char} (earlier : List (List Char))
    (parsed : parse line = some ("Meet".toList, call.parent, call.childName))
    (other : call.parent ≠ name) : asked (earlier ++ [line]) name = asked earlier name := by
  have this : askedBy name line = none := by
    unfold askedBy
    rw [parsed]
    exact if_neg fun both => other both.2
  unfold asked
  rw [List.filterMap_append, List.filterMap_cons_none this]
  exact List.append_nil _

theorem infos_modify {f : Proc → Proc} (keeps : ∀ p, (f p).info = p.info)
    (friends : Forest Proc) (k : Nat) : infos (friends.modify f k) = infos friends :=
  Forest.map_roots_modify keeps friends k

/-! ## Handing lines on -/

theorem handed_sublist (pc : Pc) (heard : List (List Char)) (j : Nat) :
    (pc.handed heard j).Sublist heard := by
  unfold Pc.handed
  split
  · split
    · exact .refl _
    · exact heard.dropLast_sublist
  · split
    · exact .refl _
    · exact heard.dropLast_sublist
  · split
    · exact .refl _
    · exact heard.dropLast_sublist
  · exact heard.dropLast_sublist
  · exact heard.dropLast_sublist
  · exact .refl _

theorem acted_front (pc : Pc) (heard : List (List Char)) : pc.acted heard <+: heard := by
  unfold Pc.acted
  split
  · exact heard.dropLast_prefix
  · exact List.prefix_refl heard

theorem Heard.mono (hears : Heard given forest) (less : ∀ j, (given j).Sublist (given' j)) :
    Heard given' forest := by
  induction hears generalizing given' with
  | nil => exact .nil
  | node heard ahead among obeys below _ _ ih =>
    exact .node heard ahead (among.trans (less 0)) obeys below (ih fun j => less (j + 1))

/-- What a process prints is no matter. -/
theorem Heard.modify {f : Proc → Proc}
    (keeps : ∀ p, (f p).stdin = p.stdin ∧ (f p).pc = p.pc ∧ (f p).name = p.name)
    (hears : Heard given forest) (k : Nat) : Heard given (forest.modify f k) := by
  induction hears generalizing k with
  | nil => exact .nil
  | @node given p friends others heard ahead among obeys below beside _ ih =>
    obtain ⟨stdin, pc, name⟩ := keeps p
    cases k with
    | succ k => exact .node heard ahead among obeys below (ih k)
    | zero =>
      refine .node heard ahead among ?_ (by rw [pc]; exact below) beside
      exact
        { stdin := stdin.trans obeys.stdin
          plain := obeys.plain
          current := by rw [pc]; exact obeys.current
          own := by rw [pc, name]; exact obeys.own
          alone := by rw [pc]; exact obeys.alone
          met := by rw [pc, name]; exact obeys.met }

/-- A line that is handed to a process comes behind those in its pipe. -/
theorem Proc.Obeys.hand (obeys : p.Obeys heard ahead friends) (whole : '\n' ∉ line) :
    (p.hand (line ++ ['\n'])).Obeys heard (ahead ++ [line]) friends := by
  refine { obeys with stdin := ?_, plain := ?_ }
  · rw [written_append, ← obeys.stdin]
    simp [Proc.hand, written]
  · rw [← List.append_assoc]
    intro text member
    rcases List.mem_append.mp member with old | new
    · exact obeys.plain text old
    · rw [List.mem_singleton.mp new]
      exact whole

/-- Tree number `k` is handed one line more. -/
theorem Heard.hand (hears : Heard given forest) (whole : '\n' ∉ line)
    (next : (given k ++ [line]).Sublist (given' k)) (less : ∀ j, (given j).Sublist (given' j)) :
    Heard given' (forest.modify (fun f => f.hand (line ++ ['\n'])) k) := by
  induction hears generalizing k given' with
  | nil => exact .nil
  | @node given p friends others heard ahead among obeys below beside _ ih =>
    cases k with
    | succ k =>
      exact .node heard ahead (among.trans (less 0)) obeys below
        (ih next fun j => less (j + 1))
    | zero =>
      refine .node heard (ahead ++ [line]) ?_ (obeys.hand whole) below
        (beside.mono fun j => less (j + 1))
      rw [← List.append_assoc]
      exact (among.append (.refl _)).trans next

/-- A new friend has not been handed anything. -/
theorem Heard.snoc (hears : Heard given forest) (childName : List Char) :
    Heard given (forest.snoc (.spawn childName)) := by
  induction hears with
  | nil =>
    refine .node [] [] (List.nil_sublist _) ?_ .nil .nil
    exact
      { stdin := rfl
        plain := nofun
        current := nofun
        own := nofun
        alone := fun _ => ⟨rfl, rfl⟩
        met := rfl }
  | node heard ahead among obeys below _ _ ih => exact .node heard ahead among obeys below ih

/-! ## Steps of a process -/

/-- What the head of the loop does with a line. -/
inductive Takes (p : Proc) (line rest : List Char) : Proc → Prop where
  | empty (blank : line = []) : Takes p line rest { p with stdin := rest }
  | pass {call : Call} (text : call.toChildCmd = line ++ ['\n'])
      (parsed : parse line = some ("Meet".toList, call.parent, call.childName))
      (other : call.parent ≠ p.name) :
      Takes p line rest { p with pc := .ask call 0 blank, stdin := rest }
  | act {call : Call} (text : call.toChildCmd = line ++ ['\n'])
      (parsed : parse line = some ("Meet".toList, call.parent, call.childName))
      (own : call.parent = p.name) :
      Takes p line rest { p with pc := .fork call, stdin := rest }

theorem takeLine_cases (taken : p.takeLine = some p') :
    ∃ line rest, readLine p.stdin = some (line, rest) ∧ Takes p line rest p' := by
  obtain ⟨⟨line, rest⟩, read, taken⟩ := Option.bind_eq_some_iff.mp taken
  refine ⟨line, rest, read, ?_⟩
  dsimp only at taken
  by_cases empty : line = []
  · rw [if_pos empty] at taken
    cases taken
    exact .empty empty
  rw [if_neg empty] at taken
  by_cases long : MAX_CMD_LEN < line.length + 2
  · rw [if_pos long] at taken
    cases taken
  rw [if_neg long] at taken
  obtain ⟨⟨command, parent, childName⟩, parsed, taken⟩ := Option.bind_eq_some_iff.mp taken
  dsimp only at taken
  by_cases meet : command = "Meet".toList
  · subst meet
    rw [if_pos rfl] at taken
    cases taken
    by_cases own : parent = p.name
    · rw [if_neg (not_not_intro own)]
      exact .act rfl parsed own
    · rw [if_pos own]
      exact .pass rfl parsed own
  · rw [if_neg meet] at taken
    cases taken

/-- What a process and its friends can be like behind a step of it. -/
inductive Moves (p : Proc) (friends : Forest Proc) : Proc → Forest Proc → Prop where
  | start {line rest command parent childName} (first : p.pc = .start)
      (read : readLine p.stdin = some (line, rest))
      (parsed : parse line = some (command, parent, childName)) :
      Moves p friends
        { p with name := Proc.friendName p.info childName, pc := .loop, stdin := rest } friends
  | take {line rest p'} (waits : p.pc = .loop) (read : readLine p.stdin = some (line, rest))
      (takes : Takes p line rest p') : Moves p friends p' friends
  | hand {call k middle} (asks : p.pc = .ask call k middle) (inside : k < friends.length) :
      Moves p friends { p with pc := .await call k middle }
        (friends.modify (fun f => f.hand call.toChildCmd) k)
  | refuse {call k middle text} (asks : p.pc = .ask call k middle)
      (printed : text = if p.isNotTako then printFailMeet call.parent call.childName else ['-']) :
      Moves p friends { p with pc := .loop, stdout := p.stdout ++ text } friends
  | read {call k middle f bytes} (awaits : p.pc = .await call k middle)
      (here : friends.root? k = some f) (some' : bytes ≠ []) (part : bytes <+: f.stdout) :
      Moves p friends { p with pc := .relay call k (bytes ++ middle.drop bytes.length) }
        (friends.modify (fun f => { f with stdout := f.stdout.drop bytes.length }) k)
  | goOn {call k middle text} (relays : p.pc = .relay call k middle)
      (printed : text = if p.isNotTako then [] else cstr middle) :
      Moves p friends { p with pc := .ask call (k + 1) middle, stdout := p.stdout ++ text } friends
  | done {call k middle text} (relays : p.pc = .relay call k middle)
      (printed : text =
        if p.isNotTako then printIndirectMeet (cstr middle) call.childName else cstr middle) :
      Moves p friends { p with pc := .loop, stdout := p.stdout ++ text } friends
  | fork {call} (forks : p.pc = .fork call) :
      Moves p friends { p with pc := .tell call } (friends.snoc (.spawn call.childName))
  | tell {call} (tells : p.pc = .tell call) :
      Moves p friends { p with pc := .report call }
        (friends.modify (fun f => f.hand call.toChildCmd) (friends.length - 1))
  | report {call text} (reports : p.pc = .report call)
      (printed : text = if p.isNotTako then printDirectMeet call.childName else p.name) :
      Moves p friends { p with pc := .loop, stdout := p.stdout ++ text } friends

theorem relayReply_cases {call : Call} {middle : List Char} (relays : p.pc = .relay call k middle)
    (relayed : p.relayReply call k middle = some p') : Moves p friends p' friends := by
  unfold Proc.relayReply at relayed
  cases root : p.isNotTako with
  | true =>
    rw [root, if_pos rfl] at relayed
    split at relayed
    · cases relayed
      have silent : p.stdout ++ [] = p.stdout := List.append_nil _
      have moves : Moves p friends
          { p with pc := .ask call (k + 1) middle, stdout := p.stdout ++ [] } friends :=
        .goOn relays (by simp [root])
      rw [silent] at moves
      exact moves
    split at relayed
    · cases relayed
      exact .done relays (by rw [root, if_pos rfl])
    · cases relayed
  | false =>
    rw [root, if_neg Bool.false_ne_true] at relayed
    split at relayed
    · split at relayed
      · cases relayed
        exact .goOn relays (by simp [root])
      · cases relayed
        exact .done relays (by simp [root])
    · cases relayed

theorem step_cases (transition : p.step friends count = some (p', friends')) :
    Moves p friends p' friends' := by
  unfold Proc.step at transition
  split at transition
  case h_1 first =>
    obtain ⟨q, started, same⟩ := Option.map_eq_some_iff.mp transition
    cases same
    obtain ⟨⟨line, rest⟩, read, started⟩ := Option.bind_eq_some_iff.mp started
    obtain ⟨⟨command, parent, childName⟩, parsed, started⟩ := Option.bind_eq_some_iff.mp started
    cases started
    exact .start first read parsed
  case h_2 waits =>
    obtain ⟨q, taken, same⟩ := Option.map_eq_some_iff.mp transition
    cases same
    obtain ⟨line, rest, read, takes⟩ := takeLine_cases taken
    exact .take waits read takes
  case h_3 call k middle asks =>
    unfold Proc.askNext at transition
    split at transition
    · cases transition
      exact .hand asks ‹_›
    split at transition
    · cases transition
      exact .refuse asks (by simp [*])
    · cases transition
      exact .refuse asks (by simp [*])
  case h_4 call k middle awaits =>
    obtain ⟨f, here, read⟩ := Option.bind_eq_some_iff.mp transition
    dsimp only at read
    split at read
    · cases read
    · cases read
      exact .read awaits here ‹_› (List.take_prefix _ _)
  case h_5 call k middle relays =>
    obtain ⟨q, relayed, same⟩ := Option.map_eq_some_iff.mp transition
    cases same
    exact relayReply_cases relays relayed
  case h_6 call forks =>
    cases transition
    exact .fork forks
  case h_7 call tells =>
    cases transition
    exact .tell tells
  case h_8 call reports =>
    cases transition
    exact .report reports rfl

/-- The next line in a pipe. -/
theorem Proc.Obeys.read (obeys : p.Obeys heard ahead friends) {rest : List Char}
    (read : readLine p.stdin = some (line, rest)) :
    ∃ later, ahead = line :: later ∧ rest = written later := by
  rw [obeys.stdin] at read
  cases ahead with
  | nil =>
    rw [readLine_nil] at read
    cases read
  | cons first later =>
    have whole : '\n' ∉ first := obeys.plain first (by simp)
    rw [readLine_cons whole] at read
    cases read
    exact ⟨later, rfl, rfl⟩

/-- A process that goes on has done what it was told. -/
theorem Proc.Obeys.goTo (obeys : p.Obeys heard ahead friends) {pc : Pc} (out : List Char)
    (attends : ∀ call, pc.call? = some call → p.pc.call? = some call)
    (acts : ∀ call, pc ≠ .fork call) (begun : pc ≠ .start) (done : ∀ call, p.pc ≠ .fork call)
    (same : infos friends' = infos friends) :
    Proc.Obeys heard ahead { p with pc := pc, stdout := out } friends' where
  stdin := obeys.stdin
  plain := obeys.plain
  current call attending := obeys.current call (attends call attending)
  own call forks := absurd forks (acts call)
  alone first := absurd first begun
  met := by
    have all {pc : Pc} (acts : ∀ call, pc ≠ .fork call) : pc.acted heard = heard := by
      unfold Pc.acted
      split
      · exact absurd rfl (acts _)
      · rfl
    rw [same, obeys.met, all acts, all done]

/-- A process and its friends behind a step of it. -/
structure Proc.Goes (heard ahead : List (List Char)) (p p' : Proc) (friends' : Forest Proc) :
    Prop where
  info : p'.info = p.info
  begun : p'.pc ≠ .start
  lines : ∃ heard' ahead', (heard' ++ ahead').Sublist (heard ++ ahead) ∧
    (p.pc ≠ .start → heard' ++ ahead' = heard ++ ahead ∧ p'.name = p.name) ∧
      p'.Obeys heard' ahead' friends' ∧ Heard (p'.pc.handed heard') friends'

/-- A step that takes no line. -/
theorem Proc.Obeys.goes (obeys : p.Obeys heard ahead friends) {pc : Pc} (out : List Char)
    (attends : ∀ call, pc.call? = some call → p.pc.call? = some call)
    (acts : ∀ call, pc ≠ .fork call) (begun : pc ≠ .start) (done : ∀ call, p.pc ≠ .fork call)
    (same : infos friends' = infos friends) (below : Heard (pc.handed heard) friends') :
    Proc.Goes heard ahead p { p with pc := pc, stdout := out } friends' where
  info := rfl
  begun := begun
  lines := ⟨heard, ahead, .refl _, fun _ => ⟨rfl, rfl⟩,
    obeys.goTo out attends acts begun done same, below⟩

/-- A process takes a line, and passes it on or acts on it. -/
theorem Proc.Obeys.take (obeys : p.Obeys heard ahead friends)
    (below : Heard (p.pc.handed heard) friends) (waits : p.pc = .loop) {rest : List Char}
    (read : readLine p.stdin = some (line, rest)) (takes : Takes p line rest p') :
    Proc.Goes heard ahead p p' friends := by
  obtain ⟨later, rfl, rfl⟩ := obeys.read read
  have met := obeys.met
  rw [waits] at met below
  have moved : heard ++ [line] ++ later = heard ++ line :: later := List.append_assoc _ _ _
  have plain : ∀ text ∈ heard ++ [line] ++ later, '\n' ∉ text := by
    rw [moved]
    exact obeys.plain
  have less : (heard ++ [line] ++ later).Sublist (heard ++ line :: later) := by simp
  -- until the process has passed it on, its friends have heard only the lines before
  have earlier : (heard ++ [line]).dropLast = heard := List.dropLast_concat
  have still : heard.Sublist (heard ++ [line]).dropLast := by simp
  cases takes with
  | empty blank =>
    subst blank
    refine ⟨rfl, by rw [waits]; nofun, heard ++ [[]], later, ?_⟩
    refine ⟨less, fun _ => ⟨moved, rfl⟩, ?_, ?_⟩
    · exact
        { stdin := rfl
          plain := plain
          current := by rw [waits]; nofun
          own := by rw [waits]; nofun
          alone := by rw [waits]; nofun
          met := by
            rw [waits]
            change infos friends = asked (heard ++ [[]]) p.name
            unfold asked
            rw [List.filterMap_append]
            exact met.trans (List.append_nil _).symm }
    · rw [waits]
      exact below.mono fun _ => List.sublist_append_left _ _
  | pass text parsed other =>
    refine ⟨rfl, nofun, heard ++ [line], later, ?_⟩
    refine ⟨less, fun _ => ⟨moved, rfl⟩, ?_, below.mono fun _ => still⟩
    exact
      { stdin := rfl
        plain := plain
        current := by
          rintro _ ⟨⟩
          exact ⟨heard, line, rfl, text, parsed⟩
        own := nofun
        alone := nofun
        met := met.trans (asked_snoc_other heard parsed other).symm }
  | act text parsed own =>
    refine ⟨rfl, nofun, heard ++ [line], later, ?_⟩
    refine ⟨less, fun _ => ⟨moved, rfl⟩, ?_, below.mono fun _ => still⟩
    exact
      { stdin := rfl
        plain := plain
        current := by
          rintro _ ⟨⟩
          exact ⟨heard, line, rfl, text, parsed⟩
        own := by
          rintro _ ⟨⟩
          exact own
        alone := nofun
        met := by
          change infos friends = asked (heard ++ [line]).dropLast p.name
          rw [earlier]
          exact met }

/-- A line is handed to the next friend. -/
theorem Heard.handLast {heard : List (List Char)} {call : Call} (last : call.Last heard)
    (plain : ∀ line ∈ heard, '\n' ∉ line) (hears : Heard given friends)
    (before : given k = heard.dropLast) (behind : given' k = heard)
    (less : ∀ j, (given j).Sublist (given' j)) :
    Heard given' (friends.modify (fun f => f.hand call.toChildCmd) k) := by
  obtain ⟨earlier, line, rfl, text, _⟩ := last
  rw [text]
  refine hears.hand (plain line (by simp)) ?_ less
  simp [before, behind]

/-- One step of a process. -/
theorem Proc.Obeys.step (obeys : p.Obeys heard ahead friends)
    (below : Heard (p.pc.handed heard) friends)
    (transition : p.step friends count = some (p', friends')) :
    Proc.Goes heard ahead p p' friends' := by
  have plain : ∀ line ∈ heard, '\n' ∉ line := fun line member =>
    obeys.plain line (List.mem_append_left _ member)
  cases step_cases transition with
  | start first read parsed =>
    obtain ⟨later, rfl, rfl⟩ := obeys.read read
    obtain ⟨rfl, rfl⟩ := obeys.alone first
    refine ⟨rfl, nofun, [], later, List.sublist_cons_self _ _, absurd first, ?_, .nil⟩
    exact
      { stdin := rfl
        plain := fun text member => obeys.plain text (List.mem_cons_of_mem _ member)
        current := nofun
        own := nofun
        alone := nofun
        met := rfl }
  | take waits read takes => exact obeys.take below waits read takes
  | @hand call k middle asks inside =>
    have last := obeys.current call (by rw [asks]; rfl)
    have done : ∀ call, p.pc ≠ .fork call := by rw [asks]; nofun
    rw [asks] at below
    refine obeys.goes p.stdout ?_ nofun nofun done (infos_modify ?_ friends k) ?_
    · rintro _ ⟨⟩
      rw [asks]
      rfl
    · exact fun _ => rfl
    · refine below.handLast last plain (if_neg (Nat.lt_irrefl k)) (if_pos (Nat.lt_succ_self k)) ?_
      intro j
      simp only [Pc.handed]
      split <;> split
      · exact .refl _
      · omega
      · exact heard.dropLast_sublist
      · exact .refl _
  | refuse asks =>
    have done : ∀ call, p.pc ≠ .fork call := by rw [asks]; nofun
    refine obeys.goes _ nofun nofun nofun done rfl ?_
    exact below.mono fun j => handed_sublist _ heard j
  | @read call k middle f bytes awaits here some' part =>
    have done : ∀ call, p.pc ≠ .fork call := by rw [awaits]; nofun
    rw [awaits] at below
    refine obeys.goes p.stdout ?_ nofun nofun done (infos_modify ?_ friends k) ?_
    · rintro _ ⟨⟩
      rw [awaits]
      rfl
    · exact fun _ => rfl
    · refine below.modify ?_ k
      exact fun _ => ⟨rfl, rfl, rfl⟩
  | goOn relays =>
    have done : ∀ call, p.pc ≠ .fork call := by rw [relays]; nofun
    rw [relays] at below
    refine obeys.goes _ ?_ nofun nofun done rfl below
    rintro _ ⟨⟩
    rw [relays]
    rfl
  | done relays =>
    have done : ∀ call, p.pc ≠ .fork call := by rw [relays]; nofun
    refine obeys.goes _ nofun nofun nofun done rfl ?_
    exact below.mono fun j => handed_sublist _ heard j
  | @fork call forks =>
    have last := obeys.current call (by rw [forks]; rfl)
    have met := obeys.met
    rw [forks] at below met
    refine ⟨rfl, nofun, heard, ahead, .refl _, fun _ => ⟨rfl, rfl⟩, ?_, below.snoc call.childName⟩
    refine { obeys with current := ?_, own := nofun, alone := nofun, met := ?_ }
    · rintro _ ⟨⟩
      exact last
    · obtain ⟨earlier, line, rfl, text, parsed⟩ := last
      change infos (friends.snoc (spawn call.childName)) = asked (earlier ++ [line]) p.name
      rw [← obeys.own call forks] at met ⊢
      rw [asked_snoc earlier parsed]
      unfold infos at met ⊢
      rw [Forest.roots_snoc, List.map_append, met, Pc.acted, List.dropLast_concat]
      rfl
  | @tell call tells =>
    have last := obeys.current call (by rw [tells]; rfl)
    have done : ∀ call, p.pc ≠ .fork call := by rw [tells]; nofun
    rw [tells] at below
    refine obeys.goes p.stdout ?_ nofun nofun done (infos_modify ?_ friends _) ?_
    · rintro _ ⟨⟩
      rw [tells]
      rfl
    · exact fun _ => rfl
    · exact below.handLast last plain rfl rfl fun j => heard.dropLast_sublist
  | report reports =>
    have done : ∀ call, p.pc ≠ .fork call := by rw [reports]; nofun
    rw [reports] at below
    exact obeys.goes _ nofun nofun nofun done rfl below

/-- A step at a place keeps the arguments of the trees. -/
theorem Heard.step {place : Place} {after : Forest Proc} (hears : Heard given forest)
    (transition : stepAt count forest place = some after) :
    infos after = infos forest ∧ Heard given after := by
  induction hears generalizing place after with
  | nil => cases place <;> cases transition
  | @node given p friends others heard ahead among obeys below beside ihBelow ihBeside =>
    cases stepAt_cases transition with
    | here stepped =>
      have goes := obeys.step below stepped
      obtain ⟨heard', ahead', less, _, obeys', below'⟩ := goes.lines
      refine ⟨?_, .node heard' ahead' (less.trans among) obeys' below' beside⟩
      simp only [infos, Forest.roots, List.map_cons, goes.info]
    | @child inner _ stepped =>
      obtain ⟨same, below'⟩ := ihBelow stepped
      refine ⟨rfl, .node heard ahead among { obeys with alone := ?_, met := ?_ } below' beside⟩
      · -- a process that has not started has no friend to make a step
        intro first
        rw [(obeys.alone first).2] at stepped
        cases inner <;> cases stepped
      · rw [same]
        exact obeys.met
    | next stepped =>
      obtain ⟨same, beside'⟩ := ihBeside stepped
      refine ⟨?_, .node heard ahead among obeys below beside'⟩
      simp only [infos, Forest.roots, List.map_cons] at same ⊢
      rw [same]

/-- Each process has friends among those it is told to meet by some of the lines. -/
theorem Heard.all {lines : List (List Char)} (hears : Heard given forest)
    (among : ∀ j, (given j).Sublist lines) :
    forest.All fun p friends => (infos friends).Sublist (asked lines p.name) := by
  induction hears with
  | nil => trivial
  | @node given p friends others heard ahead less obeys below _ ihBelow ihBeside =>
    have heardAmong : heard.Sublist lines :=
      (List.sublist_append_left heard ahead).trans (less.trans (among 0))
    refine ⟨?_, ?_, ihBeside fun j => among (j + 1)⟩
    · dsimp only
      rw [obeys.met]
      exact asked_mono ((acted_front p.pc heard).sublist.trans heardAmong) p.name
    · exact ihBelow fun j => (handed_sublist p.pc heard j).trans heardAmong

end

/-! ## Runs -/

namespace World

/-- The line of the user that an action gives. -/
def line (_ : World) : Action → List (List Char)
  | .meet parent child value => [meetLine parent child value]
  | .run _ _ => []

/-- Not_Tako has taken the first of these lines, and has the others before him. -/
structure Obeys (lines : List (List Char)) (w : World) : Prop where
  begun : w.root.pc ≠ .start
  named : w.root.name = rootName
  lines : ∃ heard ahead, heard ++ ahead = lines ∧ w.root.Obeys heard ahead w.friends ∧
    Heard (w.root.pc.handed heard) w.friends

end World

/-- A command is given in one line. -/
def oneLine (_ : World) : Action → Prop
  | .meet parent child value => '\n' ∉ meetLine parent child value
  | .run _ _ => True

instance (w : World) : (action : Action) → Decidable (oneLine w action)
  | .meet parent child value => inferInstanceAs (Decidable ('\n' ∉ meetLine parent child value))
  | .run _ _ => inferInstanceAs (Decidable True)

/-- The friends with the lines given so far. -/
def spoken : Machine (World × List (List Char)) Action := machine.recording World.line

section

variable {w w' : World} {lines : List (List Char)}

/-- What a run keeps, when it grows by a line with each command and by none with a turn. -/
theorem spoken_invariant {guard : World → Action → Prop}
    (holds : List (List Char) → World → Prop) (start : holds [] .start)
    (meet : ∀ {w w' lines parent child value},
      spoken.Reach (fun state => guard state.1) (w, lines) → holds lines w →
        guard w (.meet parent child value) → w.step (.meet parent child value) = some w' →
          holds (lines ++ [meetLine parent child value]) w')
    (run : ∀ {w w' lines place count},
      spoken.Reach (fun state => guard state.1) (w, lines) → holds lines w →
        w.step (.run place count) = some w' → holds lines w')
    (reached : spoken.Reach (fun state => guard state.1) (w, lines)) : holds lines w := by
  refine reached.invariant (fun state => holds state.2 state.1) ?_ ?_
  · rintro ⟨w, lines⟩ ⟨first, empty⟩
    have begins : w = .start := first
    have none : lines = [] := empty
    subst begins none
    exact start
  · rintro ⟨w, lines⟩ action ⟨w', lines'⟩ prior held allowed transition
    obtain ⟨stepped, grown⟩ := Machine.recording_step transition
    change lines' = lines ++ w.line action at grown
    subst grown
    cases action with
    | meet parent child value => exact meet prior held allowed stepped
    | run place count =>
      rw [show w.line (.run place count) = [] from rfl, List.append_nil]
      exact run prior held stepped

theorem obeys_start : World.Obeys [] .start where
  begun := nofun
  named := rfl
  lines := ⟨[], [], rfl, ⟨rfl, nofun, nofun, nofun, nofun, rfl⟩, .nil⟩

/-- A line from the user comes behind those that Not_Tako has before him. -/
theorem World.Obeys.meet (obeys : w.Obeys lines) {parent child value : List Char}
    (whole : '\n' ∉ meetLine parent child value)
    (transition : w.step (.meet parent child value) = some w') :
    w'.Obeys (lines ++ [meetLine parent child value]) := by
  obtain ⟨heard, ahead, rfl, does, below⟩ := obeys.lines
  unfold World.step at transition
  dsimp only at transition
  split at transition
  · cases transition
    have more := List.append_assoc heard ahead [meetLine parent child value]
    exact ⟨obeys.begun, obeys.named, heard, ahead ++ [_], more.symm, does.hand whole, below⟩
  · cases transition

theorem World.Obeys.run (obeys : w.Obeys lines) {place : Place} {count : Nat}
    (transition : w.step (.run place count) = some w') : w'.Obeys lines := by
  obtain ⟨heard, ahead, rfl, does, below⟩ := obeys.lines
  cases place with
  | here =>
    obtain ⟨⟨root, friends⟩, stepped, same⟩ := Option.map_eq_some_iff.mp transition
    cases same
    have goes := does.step below stepped
    obtain ⟨heard', ahead', _, whole, does', below'⟩ := goes.lines
    obtain ⟨all, named⟩ := whole obeys.begun
    exact ⟨goes.begun, named.trans obeys.named, heard', ahead', all, does', below'⟩
  | child place =>
    obtain ⟨friends, stepped, same⟩ := Option.map_eq_some_iff.mp transition
    cases same
    obtain ⟨same, below'⟩ := below.step stepped
    refine ⟨obeys.begun, obeys.named, heard, ahead, rfl, ?_, below'⟩
    refine { does with alone := fun first => absurd first obeys.begun, met := ?_ }
    rw [same]
    exact does.met
  | next place => cases transition

theorem reach_obeys (reached : spoken.Reach (fun state => oneLine state.1) (w, lines)) :
    w.Obeys lines := by
  refine spoken_invariant World.Obeys obeys_start ?_ ?_ reached
  · intro w w' lines parent child value _ obeys whole transition
    exact obeys.meet whole transition
  · intro w w' lines place count _ obeys transition
    exact obeys.run transition

end

/-- In every run, whatever the reads get and however replies are mixed up, the friends of each
process are some of those that the user's lines tell it to meet, in the order of the lines. Those
of Not_Tako are the first of his, and all of them when he waits for a command. -/
theorem friends_as_told {w : World} {lines : List (List Char)}
    (reached : spoken.Reach (fun state => oneLine state.1) (w, lines)) :
    (w.friends.All fun p friends => (infos friends).Sublist (asked lines p.name)) ∧
      infos w.friends <+: asked lines rootName ∧
        (w.Finished → infos w.friends = asked lines rootName) := by
  have obeys := reach_obeys reached
  obtain ⟨heard, ahead, rfl, does, below⟩ := obeys.lines
  have met := does.met
  rw [obeys.named] at met
  refine ⟨?_, ?_, ?_⟩
  · exact below.all fun j =>
      (handed_sublist w.root.pc heard j).trans (List.sublist_append_left heard ahead)
  · rw [met]
    exact ((acted_front w.root.pc heard).trans (List.prefix_append heard ahead)).filterMap _
  · rintro ⟨waits, empty⟩
    rw [does.stdin] at empty
    have nothing : ahead = [] := by
      cases ahead with
      | nil => rfl
      | cons line later => simp [written] at empty
    rw [met, waits, nothing, List.append_nil]
    rfl

/-- Three commands, of which Not_Tako gets the reply to the second in two parts. -/
def mixedUp : List Action :=
  [.meet rootName ['A', 'B'] ['1']] ++ List.replicate 4 (.run .here 9) ++
    [.run (.child .here) 9, .meet ['A', 'B'] ['C'] ['1']] ++ List.replicate 2 (.run .here 9) ++
    List.replicate 4 (.run (.child .here) 9) ++ List.replicate 2 (.run .here 1) ++
    [.meet ['X'] ['D'] ['1']] ++ List.replicate 4 (.run .here 9)

/-- Not_Tako takes the rest of a reply for one to the next command, and thinks that he has met a
third friend. He has met one, who has met another. -/
theorem friends_as_told_mixed_up :
    ∃ w, spoken.Reach (fun state => oneLine state.1)
        (w, [meetLine rootName ['A', 'B'] ['1'], meetLine ['A', 'B'] ['C'] ['1'],
          meetLine ['X'] ['D'] ['1']]) ∧
      w.root.stdout = printDirectMeet ['A', 'B'] ++ printIndirectMeet ['A'] ['C'] ++
        printIndirectMeet ['B'] ['D'] ∧ infos w.friends = [['A', 'B']] := by
  have valid : spoken.Initial (.start, []) := ⟨rfl, rfl⟩
  have ran : (spoken.exec (fun state action => oneLine state.1 action) (.start, []) mixedUp).map
      (fun state => (state.2, decide state.1.Finished, state.1.root.stdout)) =
        some ([meetLine rootName ['A', 'B'] ['1'], meetLine ['A', 'B'] ['C'] ['1'],
          meetLine ['X'] ['D'] ['1']], true, printDirectMeet ['A', 'B'] ++
            printIndirectMeet ['A'] ['C'] ++ printIndirectMeet ['B'] ['D']) := by
    decide +kernel
  obtain ⟨⟨w, lines⟩, reached, seen⟩ := Machine.Reach.of_ran valid ran
  obtain ⟨given, seen⟩ := Prod.mk.inj seen
  obtain ⟨finished, printed⟩ := Prod.mk.inj seen
  change lines = _ at given
  subst given
  have friends := (friends_as_told reached).2.2 (of_decide_eq_true finished)
  refine ⟨w, reached, printed, friends.trans ?_⟩
  decide +kernel

end NTUSP.Friend
