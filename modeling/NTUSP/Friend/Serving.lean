import NTUSP.Friend.Circle

/-!
# A friend serving a command

From the line in its pipe to its reply, a friend that can answer without a detour goes
through the phases of `Phase`, or waits for its first child, which is in one. `Serving` says
so of tree `k` of a forest whose other trees rest. The names below are those before the
command, and the number bounds the steps that are left.
-/

namespace NTUSP.Friend

open NTUSP.Library CString

/-- The friend `a` behind its start. -/
def Proc.at (a : List Char) (pc : Pc) (stdin stdout : List Char) : Proc :=
  { info := a, name := a, pc, stdin, stdout }

@[simp] theorem at_print (a : List Char) (pc : Pc) (stdin stdout text : List Char) :
    (Proc.at a pc stdin stdout).print text = .at a pc stdin (stdout ++ text) := rfl

@[simp] theorem at_goTo (a : List Char) (pc pc' : Pc) (stdin stdout : List Char) :
    (Proc.at a pc stdin stdout).goTo pc' = .at a pc' stdin stdout := rfl

/-- The friend `a` has nothing to do but to start and to read `pending`. -/
inductive Rests (pending out a : List Char) : Proc → Prop where
  | loop (named : IsName a) : Rests pending out a (.at a .loop pending out)
  | start {line command parent childName : List Char} (named : IsName a) (inside : '\n' ∉ line)
      (parsed : parse line = some (command, parent, childName)) :
      Rests pending out a
        { info := a, name := [], pc := .start, stdin := line ++ '\n' :: pending, stdout := out }

/-- Friends with the given names that have nothing to do. -/
def Still (names : Forest (List Char)) (friends : Forest Proc) : Prop :=
  names.Rel (Rests [] []) friends

/-- The number of bytes in the reply pipe that a process reads next. -/
def Proc.unread (p : Proc) (friends : Forest Proc) : Nat :=
  match p.pc with
  | .await _ k _ => ((friends.root? k).map fun f => f.stdout.length).getD 0
  | _ => 0

/-- The same for the process at a place of a forest. -/
def unreadAt : Forest Proc → Place → Nat
  | .nil, _ => 0
  | .node p friends _, .here => p.unread friends
  | .node _ friends _, .child place => unreadAt friends place
  | .node _ _ others, .next place => unreadAt others place

/-- The processes that have not read their first line. -/
def starting : Forest Proc → Nat
  | .nil => 0
  | .node p friends others =>
      (if p.pc = .start then 1 else 0) + starting friends + starting others

/-- The line of a `Meet` command, as the program has read it. -/
structure Call.Valid (c : Call) (line : List Char) : Prop where
  text : c.toChildCmd = line ++ ['\n']
  inside : '\n' ∉ line
  nonempty : line ≠ []
  fits : line.length + 2 ≤ MAX_CMD_LEN
  parsed : parse line = some ("Meet".toList, c.parent, c.childName)
  named : IsName c.childName

section Names

variable {name : List Char}

theorem friendName_of_isName (named : IsName name) (childName : List Char) :
    Proc.friendName name childName = name := by
  have plain : ∀ c ∈ name, decide (c ≠ '_') = true := fun c member => by
    simpa using (named.plain c member).2.1
  have whole : name.takeWhile (· ≠ '_') = name := List.takeWhile_eq_self_iff.mpr plain
  have short : name.length ≤ MAX_FRIEND_NAME_LEN - 1 := Nat.le_sub_one_of_lt named.short
  unfold Proc.friendName
  simp only [whole, named.nonempty, if_false, List.take_of_length_le short]

theorem IsName.ne_root (named : IsName name) : name ≠ rootName := by
  rintro rfl
  exact (named.plain '_' (by decide)).2.1 rfl

theorem spawn_of_isName (named : IsName name) :
    Proc.spawn name = { info := name, name := [], pc := .start, stdin := [], stdout := [] } := by
  have short : name.length ≤ MAX_FRIEND_INFO_LEN := Nat.le_trans named.short.le (by decide)
  unfold Proc.spawn
  rw [List.take_of_length_le short]

/-- A reply in the zeroed buffer. -/
def padded (text : List Char) : List Char := text ++ blank.drop text.length

theorem zero_mem_padded (named : IsName name) : '\x00' ∈ padded name := by
  have room : 0 < MAX_FRIEND_NAME_LEN - name.length := Nat.sub_pos_of_lt named.short
  simp [padded, blank, List.drop_replicate, List.mem_replicate, room.ne']

theorem cstr_padded (named : IsName name) : cstr (padded name) = name := by
  have plain : ∀ c ∈ name, decide (c ≠ '\x00') = true := fun c member => by
    simpa using (named.plain c member).2.2.2
  unfold cstr padded
  rw [List.takeWhile_append_of_pos plain, blank, List.drop_replicate]
  cases MAX_FRIEND_NAME_LEN - name.length <;> simp [List.replicate_succ]

theorem head_padded (named : IsName name) : (padded name).head? ≠ some '-' := by
  have first := named.head
  cases name with
  | nil => exact absurd rfl named.nonempty
  | cons c rest => simpa [padded] using first

end Names

/-! ## Friends at rest -/

theorem Rests.named {pending out a : List Char} {p : Proc} (rests : Rests pending out a p) :
    IsName a := by
  cases rests with
  | loop named => exact named
  | start named => exact named

/-- A friend reads its name and the line it is born with. -/
theorem step_start {pending out a line command parent childName : List Char} (named : IsName a)
    (inside : '\n' ∉ line) (parsed : parse line = some (command, parent, childName))
    (friends : Forest Proc) (count : Nat) :
    Proc.step
      { info := a, name := [], pc := .start, stdin := line ++ '\n' :: pending, stdout := out }
      friends count = some (.at a .loop pending out, friends) := by
  simp only [Proc.step, Proc.startUp, readLine_append inside, parsed, Option.bind_eq_bind,
    Option.bind_some, friendName_of_isName named]
  rfl

/-- A friend that has nothing to do can only start. -/
theorem Rests.step {pending out a : List Char} {p p' : Proc} {friends friends' : Forest Proc}
    {count : Nat} (rests : Rests pending out a p) (idle : p.pc ≠ .loop)
    (transition : p.step friends count = some (p', friends')) :
    friends' = friends ∧ p.pc = .start ∧ p' = .at a .loop pending out := by
  cases rests with
  | loop named => exact absurd rfl idle
  | start named inside parsed =>
    rw [step_start named inside parsed] at transition
    cases transition
    exact ⟨rfl, rfl, rfl⟩

theorem step_loop (a stdin stdout : List Char) (friends : Forest Proc) (count : Nat) :
    (Proc.at a .loop stdin stdout).step friends count =
      (Proc.at a .loop stdin stdout).takeLine.map fun p => (p, friends) := rfl

theorem step_ask (a stdout : List Char) (c : Call) (k : Nat) (middle : List Char)
    (friends : Forest Proc) (count : Nat) :
    (Proc.at a (.ask c k middle) [] stdout).step friends count =
      some ((Proc.at a (.ask c k middle) [] stdout).askNext friends c k middle) := rfl

theorem step_relay (a stdout : List Char) (c : Call) (k : Nat) (middle : List Char)
    (friends : Forest Proc) (count : Nat) :
    (Proc.at a (.relay c k middle) [] stdout).step friends count =
      ((Proc.at a (.relay c k middle) [] stdout).relayReply c k middle).map
        fun p => (p, friends) := rfl

/-- Nothing is read from an empty pipe. -/
theorem step_at_loop {a out : List Char} {friends : Forest Proc} {count : Nat} :
    (Proc.at a .loop [] out).step friends count = none := by
  simp [Proc.step, Proc.at, Proc.takeLine, readLine]

/-- A friend at rest stays at rest, and has started. -/
theorem Rests.wakes {a : List Char} {p p' : Proc} {friends friends' : Forest Proc} {count : Nat}
    (rests : Rests [] [] a p) (transition : p.step friends count = some (p', friends')) :
    Rests [] [] a p' ∧ friends' = friends ∧ p.pc = .start ∧ p'.pc ≠ .start := by
  have idle : p.pc ≠ .loop := by
    cases rests with
    | loop named =>
      rw [step_at_loop] at transition
      cases transition
    | start => simp
  obtain ⟨same, begun, rfl⟩ := rests.step idle transition
  exact ⟨.loop rests.named, same, begun, by simp [Proc.at]⟩

/-- The steps of a tree and of those beside it. -/
inductive Stepped (count : Nat) (p : Proc) (friends others : Forest Proc) :
    Place → Forest Proc → Prop where
  | here {p' friends'} (stepped : p.step friends count = some (p', friends')) :
      Stepped count p friends others .here (.node p' friends' others)
  | child {place friends'} (stepped : stepAt count friends place = some friends') :
      Stepped count p friends others (.child place) (.node p friends' others)
  | next {place others'} (stepped : stepAt count others place = some others') :
      Stepped count p friends others (.next place) (.node p friends others')

theorem stepAt_cases {count : Nat} {p : Proc} {friends others after : Forest Proc} {place : Place}
    (transition : stepAt count (.node p friends others) place = some after) :
    Stepped count p friends others place after := by
  cases place with
  | here =>
    obtain ⟨⟨p', friends'⟩, stepped, rfl⟩ := Option.map_eq_some_iff.mp transition
    exact .here stepped
  | child place =>
    obtain ⟨friends', stepped, rfl⟩ := Option.map_eq_some_iff.mp transition
    exact .child stepped
  | next place =>
    obtain ⟨others', stepped, rfl⟩ := Option.map_eq_some_iff.mp transition
    exact .next stepped

/-- Friends at rest stay at rest, and one of them has started. -/
theorem Still.stepAt {names : Forest (List Char)} {friends friends' : Forest Proc} {count : Nat}
    {place : Place} (still : Still names friends)
    (transition : stepAt count friends place = some friends') :
    Still names friends' ∧ starting friends' < starting friends := by
  induction still generalizing place friends' with
  | nil => cases place <;> cases transition
  | node rests under next ihBelow ihBeside =>
    cases stepAt_cases transition with
    | here stepped =>
      obtain ⟨rests, rfl, begun, running⟩ := rests.wakes stepped
      exact ⟨.node rests under next, by simp [starting, begun, running]⟩
    | child stepped =>
      obtain ⟨rest, fewer⟩ := ihBelow stepped
      refine ⟨.node rests rest next, ?_⟩
      simp only [starting]
      omega
    | next stepped =>
      obtain ⟨rest, fewer⟩ := ihBeside stepped
      refine ⟨.node rests under rest, ?_⟩
      simp only [starting]
      omega

/-- Every name in a tree is one. -/
theorem Still.named {names : Forest (List Char)} {friends : Forest Proc}
    (still : Still names friends) : ∀ a ∈ names.labels, IsName a := by
  induction still with
  | nil => simp [Forest.labels]
  | node rests _ _ below beside =>
    simp only [Forest.labels, List.mem_cons, List.mem_append]
    rintro a (rfl | inside | outside)
    · exact rests.named
    · exact below a inside
    · exact beside a outside

/-! ## The phases of a command -/

namespace Call

/-- The tree below `a` behind the command. -/
def grown (c : Call) (a : List Char) (names : Forest (List Char)) : Forest (List Char) :=
  if a = c.parent then names.snoc c.childName else names.graft c.parent c.childName

/-- What `a` replies. -/
def reply (c : Call) (a : List Char) (names : Forest (List Char)) : List Char :=
  if a = c.parent ∨ c.parent ∈ names.labels then c.parent else ['-']

/-- The friend `a` can answer without a detour. -/
def Answers (c : Call) (a : List Char) (names : Forest (List Char)) : Prop :=
  a = c.parent ∨ Leads c.parent names ∨ names = .nil

end Call

/-- What friend `a` is doing about a command, by itself. -/
inductive Phase (c : Call) (a : List Char) (names : Forest (List Char)) :
    Nat → Proc → Forest Proc → Prop where
  | asked {p friends} (rests : Rests c.toChildCmd [] a p) (still : Still names friends)
      (answers : c.Answers a names) : Phase c a names (4 * names.spine + 5) p friends
  | asking {friends} (other : a ≠ c.parent) (still : Still names friends)
      (answers : Leads c.parent names ∨ names = .nil) :
      Phase c a names (4 * names.spine + 4) (.at a (.ask c 0 blank) [] []) friends
  | relaying {friends} (other : a ≠ c.parent) (leads : Leads c.parent names)
      (still : Still (names.graft c.parent c.childName) friends) :
      Phase c a names 1 (.at a (.relay c 0 (padded c.parent)) [] []) friends
  | forking {friends} (own : a = c.parent) (still : Still names friends) :
      Phase c a names 3 (.at a (.fork c) [] []) friends
  | telling {friends} (own : a = c.parent) (still : Still names friends) :
      Phase c a names 2 (.at a (.tell c) [] []) (friends.snoc (.spawn c.childName))
  | reporting {friends} (own : a = c.parent) (still : Still (names.snoc c.childName) friends) :
      Phase c a names 1 (.at a (.report c) [] []) friends
  | replied {friends} (still : Still (c.grown a names) friends) :
      Phase c a names 0 (.at a .loop [] (c.reply a names)) friends

/-- Tree `k` of the friends serves a command, and the others rest. -/
inductive Serving (c : Call) : Nat → Nat → Forest (List Char) → Forest Proc → Prop where
  | own {a left names others p friends rest} (named : IsName a)
      (phase : Phase c a names left p friends) (still : Still others rest) :
      Serving c 0 left (.node a names others) (.node p friends rest)
  | awaiting {a left names others friends rest} (named : IsName a) (other : a ≠ c.parent)
      (leads : Leads c.parent names) (serving : Serving c 0 left names friends)
      (still : Still others rest) :
      Serving c 0 (left + 2) (.node a names others)
        (.node (.at a (.await c 0 blank) [] []) friends rest)
  | beside {a k left names others p friends rest} (rests : Rests [] [] a p)
      (still : Still names friends) (serving : Serving c k left others rest) :
      Serving c (k + 1) left (.node a names others) (.node p friends rest)

/-- One of the trees, with the tree below it grown by the command. -/
def Call.grownAt (c : Call) : Nat → Forest (List Char) → Forest (List Char)
  | _, .nil => .nil
  | 0, .node a names others => .node a (c.grown a names) others
  | k + 1, .node a names others => .node a names (c.grownAt k others)

section

variable {c : Call} {line : List Char} {names : Forest (List Char)} {friends friends' : Forest Proc}
  {k left : Nat}

/-- A friend at rest that is handed the command serves it. -/
theorem Still.hand (still : Still names friends) {a : List Char} {below others : Forest (List Char)}
    (here : names.drop k = .node a below others) (answers : c.Answers a below) :
    Serving c k (4 * below.spine + 5) names
      (friends.modify (fun f => f.hand c.toChildCmd) k) := by
  induction still generalizing k with
  | nil => cases k <;> cases here
  | @node b p names' friends' others' rest rests under next _ ih =>
    cases k with
    | zero =>
      cases here
      refine .own rests.named (.asked ?_ under answers) next
      cases rests with
      | loop named => exact .loop named
      | @start line command parent childName named inside parsed =>
        have text : line ++ '\n' :: [] ++ c.toChildCmd = line ++ '\n' :: c.toChildCmd := by simp
        unfold Proc.hand
        dsimp only
        rw [text]
        exact .start named inside parsed
    | succ k => exact .beside rests under (ih here)

/-- Until it has replied, nothing can be read from a friend that serves a command. Then its
tree has grown, and the others rest as they did. -/
theorem Serving.read (serving : Serving c k left names friends) {f : Proc}
    (here : friends.root? k = some f) (pending : f.stdout ≠ []) :
    left = 0 ∧ (∃ a below others, names.drop k = .node a below others ∧
      f.stdout = c.reply a below) ∧
      Still (c.grownAt k names) (friends.modify (fun f => { f with stdout := [] }) k) := by
  induction serving with
  | own named phase still =>
    cases here
    cases phase with
    | asked rests =>
      cases rests with
      | loop => exact absurd rfl pending
      | start => exact absurd rfl pending
    | replied still' => exact ⟨rfl, ⟨_, _, _, rfl, rfl⟩, .node (.loop named) still' still⟩
    | _ => exact absurd rfl pending
  | awaiting =>
    cases here
    exact absurd rfl pending
  | beside rests still _ ih =>
    obtain ⟨done, replied, after⟩ := ih here
    exact ⟨done, replied, .node rests still after⟩

/-- The head of the loop, with the command in the pipe. -/
theorem takeLine_valid (valid : c.Valid line) (a out : List Char) :
    (Proc.at a .loop c.toChildCmd out).takeLine =
      some (.at a (if c.parent ≠ a then .ask c 0 blank else .fork c) [] out) := by
  have read : readLine c.toChildCmd = some (line, []) := by
    rw [valid.text]
    exact readLine_append valid.inside []
  have same : ({ toChildCmd := line ++ ['\n'], parent := c.parent, childName := c.childName } :
      Call) = c := by
    rw [← valid.text]
  have short : ¬ MAX_CMD_LEN < line.length + 2 := Nat.not_lt.mpr valid.fits
  simp [Proc.takeLine, Proc.at, read, valid.nonempty, short, valid.parsed, same]

/-- The step at the head of the loop. -/
theorem step_command (valid : c.Valid line) (a out : List Char) (friends : Forest Proc)
    (count : Nat) :
    (Proc.at a .loop c.toChildCmd out).step friends count =
      some (.at a (if c.parent ≠ a then .ask c 0 blank else .fork c) [] out, friends) := by
  rw [step_loop, takeLine_valid valid]
  rfl

theorem isNotTako_at {a : List Char} (named : IsName a) (pc : Pc) (stdin stdout : List Char) :
    (Proc.at a pc stdin stdout).isNotTako = false := by
  simp [Proc.isNotTako, Proc.at, named.ne_root]

/-- A first child is handed the line. -/
theorem step_ask_child {a out middle : List Char} {count : Nat} (more : k < friends.length) :
    (Proc.at a (.ask c k middle) [] out).step friends count =
      some (.at a (.await c k middle) [] out,
        friends.modify (fun f => f.hand c.toChildCmd) k) := by
  simp [step_ask, Proc.askNext, more]

/-- A friend without children refuses. -/
theorem step_ask_leaf {a : List Char} (named : IsName a) {count : Nat} :
    (Proc.at a (.ask c 0 blank) [] []).step .nil count = some (.at a .loop [] ['-'], .nil) := by
  simp [step_ask, Proc.askNext, Forest.length, isNotTako_at named]

/-- A friend passes the name on that it got. -/
theorem step_relay_name {a : List Char} (named : IsName a) (known : IsName c.parent) {count : Nat} :
    (Proc.at a (.relay c 0 (padded c.parent)) [] []).step friends count =
      some (.at a .loop [] c.parent, friends) := by
  simp [step_relay, Proc.relayReply, isNotTako_at named, zero_mem_padded known, head_padded known,
    cstr_padded known]

/-- A friend with a new child replies its own name. -/
theorem step_report {a : List Char} (named : IsName a) {count : Nat} :
    (Proc.at a (.report c) [] []).step friends count = some (.at a .loop [] a, friends) := by
  change some ((Proc.print _ (if _ then _ else _)).goTo _, friends) = _
  simp only [isNotTako_at named, Bool.false_eq_true, if_false, at_print, at_goTo, List.nil_append]
  rfl

/-- Telling the newest friend the line it is born with. -/
theorem step_tell {a out : List Char} {count : Nat} :
    (Proc.at a (.tell c) [] out).step (friends.snoc (.spawn c.childName)) count =
      some (.at a (.report c) [] out,
        friends.snoc ((Proc.spawn c.childName).hand c.toChildCmd)) := by
  have last : (friends.snoc (Proc.spawn c.childName)).length - 1 = friends.length := by
    rw [Forest.length_snoc]
    omega
  change some (_, Forest.modify ..) = _
  rw [last, Forest.modify_snoc]
  rfl

theorem rests_newborn (valid : c.Valid line) :
    Rests [] [] c.childName ((Proc.spawn c.childName).hand c.toChildCmd) := by
  rw [spawn_of_isName valid.named, Proc.hand, valid.text]
  exact .start valid.named valid.inside valid.parsed

/-- A step of the friend that serves a command, in a phase of its own. -/
theorem Phase.step (valid : c.Valid line) {a : List Char} (named : IsName a)
    {below others : Forest (List Char)} {p p' : Proc} {rest : Forest Proc} {count : Nat}
    (phase : Phase c a below left p friends) (still : Still others rest)
    (transition : p.step friends count = some (p', friends')) :
    ∃ left', Serving c 0 left' (.node a below others) (.node p' friends' rest) ∧
      (left' < left ∨
        left' = left ∧ p.pc = .start ∧ p'.pc ≠ .start ∧ friends' = friends) := by
  cases phase with
  | asked rests under answers =>
    cases rests with
    | start named inside parsed =>
      obtain ⟨rfl, begun, rfl⟩ := (Rests.start named inside parsed).step (by simp) transition
      refine ⟨_, .own named (.asked (.loop named) under answers) still, .inr ⟨rfl, rfl, ?_, rfl⟩⟩
      simp [Proc.at]
    | loop =>
      rw [step_command valid] at transition
      cases transition
      by_cases own : a = c.parent
      · rw [if_neg (not_not.mpr own.symm)]
        exact ⟨3, .own named (.forking own under) still, .inl (by omega)⟩
      · rw [if_pos (Ne.symm own)]
        exact ⟨_, .own named (.asking own under (answers.resolve_left own)) still,
          .inl (by omega)⟩
  | asking other under answers =>
    cases under with
    | nil =>
      rw [step_ask_leaf named] at transition
      cases transition
      have refused : c.reply a .nil = ['-'] := by simp [Call.reply, other, Forest.labels]
      have same : c.grown a .nil = .nil := by simp [Call.grown, other, Forest.graft]
      refine ⟨0, .own named ?_ still, .inl (by omega)⟩
      rw [← refused]
      exact .replied (by rw [same]; exact .nil)
    | @node b q names' friends' others' rest' rests under' next =>
      rw [step_ask_child (Nat.succ_pos _)] at transition
      cases transition
      have leads := answers.resolve_right (by simp)
      have all : Still (.node b names' others') (.node q friends' rest') := .node rests under' next
      have serving := all.hand (k := 0) rfl (c := c) (leads.imp_right .inl)
      refine ⟨_, .awaiting named other leads serving still, .inl ?_⟩
      simp only [Forest.spine]
      omega
  | relaying other leads under =>
    have known : IsName c.parent := under.named _ (Forest.mem_graft.mpr (.inl leads.mem))
    rw [step_relay_name named known] at transition
    cases transition
    have found : c.reply a below = c.parent := by simp [Call.reply, leads.mem]
    have same : c.grown a below = below.graft c.parent c.childName := by
      simp [Call.grown, other]
    refine ⟨0, .own named ?_ still, .inl (by omega)⟩
    rw [← found]
    exact .replied (by rw [same]; exact under)
  | forking own under =>
    cases transition
    exact ⟨2, .own named (.telling own under) still, .inl (by omega)⟩
  | @telling friends own under =>
    rw [step_tell] at transition
    cases transition
    exact ⟨1, .own named (.reporting own (under.snoc (rests_newborn valid))) still, .inl (by omega)⟩
  | reporting own under =>
    subst own
    rw [step_report named] at transition
    cases transition
    have found : c.reply c.parent below = c.parent := by simp [Call.reply]
    have same : c.grown c.parent below = below.snoc c.childName := by simp [Call.grown]
    rw [← same] at under
    have phase : Phase c c.parent below 0 (.at c.parent .loop [] (c.reply c.parent below))
        friends := .replied under
    rw [found] at phase
    exact ⟨0, .own named phase still, .inl (by omega)⟩
  | replied under =>
    rw [step_at_loop] at transition
    cases transition

/-- A friend that has been born but not spoken to waits. -/
theorem stepAt_snoc_spawn {name : List Char} {count : Nat} {place : Place}
    (transition : stepAt count (friends.snoc (.spawn name)) place = some friends') :
    ∃ before, stepAt count friends place = some before ∧ friends' = before.snoc (.spawn name) := by
  induction friends generalizing place friends' with
  | nil =>
    have waits : (Proc.spawn name).step .nil count = none := by
      simp [Proc.step, Proc.spawn, Proc.startUp, readLine]
    cases stepAt_cases transition with
    | here stepped =>
      rw [waits] at stepped
      cases stepped
    | @child place _ stepped => cases place <;> cases stepped
    | @next place _ stepped => cases place <;> cases stepped
  | node p below others _ ih =>
    cases stepAt_cases transition with
    | @here p' after stepped =>
      exact ⟨.node p' after others, by simp [Friend.stepAt, stepped], rfl⟩
    | @child _ after stepped =>
      exact ⟨.node p after others, by simp [Friend.stepAt, stepped], rfl⟩
    | next stepped =>
      obtain ⟨before, within, rfl⟩ := ih stepped
      exact ⟨.node p below before, by simp [Friend.stepAt, within], rfl⟩

theorem starting_snoc (p : Proc) :
    starting (friends.snoc p) = starting friends + if p.pc = .start then 1 else 0 := by
  induction friends with
  | nil => simp [Forest.snoc, starting]
  | node q below others _ ih =>
    simp only [Forest.snoc, starting, ih]
    omega

/-- A step below a friend that serves a command by itself starts a process. -/
theorem Phase.stepAt {a : List Char} {p : Proc} {count : Nat} {place : Place}
    (phase : Phase c a names left p friends)
    (transition : stepAt count friends place = some friends') :
    Phase c a names left p friends' ∧ starting friends' < starting friends := by
  cases phase with
  | asked rests still answers =>
    obtain ⟨still, fewer⟩ := still.stepAt transition
    exact ⟨.asked rests still answers, fewer⟩
  | asking other still answers =>
    obtain ⟨still, fewer⟩ := still.stepAt transition
    exact ⟨.asking other still answers, fewer⟩
  | relaying other leads still =>
    obtain ⟨still, fewer⟩ := still.stepAt transition
    exact ⟨.relaying other leads still, fewer⟩
  | forking own still =>
    obtain ⟨still, fewer⟩ := still.stepAt transition
    exact ⟨.forking own still, fewer⟩
  | telling own still =>
    obtain ⟨before, stepped, rfl⟩ := stepAt_snoc_spawn transition
    obtain ⟨still, fewer⟩ := still.stepAt stepped
    refine ⟨.telling own still, ?_⟩
    rw [starting_snoc, starting_snoc]
    omega
  | reporting own still =>
    obtain ⟨still, fewer⟩ := still.stepAt transition
    exact ⟨.reporting own still, fewer⟩
  | replied still =>
    obtain ⟨still, fewer⟩ := still.stepAt transition
    exact ⟨.replied still, fewer⟩

theorem Phase.named {a : List Char} {p : Proc} (phase : Phase c a names left p friends) :
    ∀ name ∈ names.labels, IsName name := by
  intro name member
  cases phase with
  | asked _ still _ => exact still.named name member
  | asking _ still _ => exact still.named name member
  | relaying _ _ still => exact still.named name (Forest.mem_graft.mpr (.inl member))
  | forking _ still => exact still.named name member
  | telling _ still => exact still.named name member
  | reporting _ still => exact still.named name (Forest.mem_snoc.mpr (.inl member))
  | replied still =>
    unfold Call.grown at still
    split at still
    · exact still.named name (Forest.mem_snoc.mpr (.inl member))
    · exact still.named name (Forest.mem_graft.mpr (.inl member))

/-- Every name in a tree that serves a command is one. -/
theorem Serving.named (serving : Serving c k left names friends) :
    ∀ name ∈ names.labels, IsName name := by
  induction serving with
  | own named phase still =>
    simp only [Forest.labels, List.mem_cons, List.mem_append]
    rintro name (rfl | inside | outside)
    · exact named
    · exact phase.named name inside
    · exact still.named name outside
  | awaiting named _ _ _ still ih =>
    simp only [Forest.labels, List.mem_cons, List.mem_append]
    rintro name (rfl | inside | outside)
    · exact named
    · exact ih name inside
    · exact still.named name outside
  | beside rests still _ ih =>
    simp only [Forest.labels, List.mem_cons, List.mem_append]
    rintro name (rfl | inside | outside)
    · exact rests.named
    · exact still.named name inside
    · exact ih name outside

/-- A reply fits in the buffer. -/
theorem Serving.reply_short (serving : Serving c k left names friends) {a : List Char}
    {below others : Forest (List Char)} (tree : names.drop k = .node a below others) :
    (c.reply a below).length ≤ MAX_FRIEND_NAME_LEN := by
  have inside : ∀ name, name = a ∨ name ∈ below.labels → IsName name := by
    intro name member
    refine serving.named name (Forest.mem_of_drop (k := k) ?_)
    rw [tree]
    simp only [Forest.labels, List.mem_cons, List.mem_append]
    exact member.imp_right .inl
  unfold Call.reply
  split
  · rename_i found
    exact (inside _ (found.imp_left Eq.symm)).short.le
  · decide

/-- A whole reply is read at once. -/
theorem Serving.readReply (serving : Serving c k left names friends) {p p' : Proc}
    {middle : List Char} {count : Nat}
    (whole : ((friends.root? k).map fun f => f.stdout.length).getD 0 ≤ count)
    (transition : p.readReply friends c k middle count = some (p', friends')) :
    ∃ a below others, names.drop k = .node a below others ∧
      p' = p.goTo (.relay c k (c.reply a below ++ middle.drop (c.reply a below).length)) ∧
      Still (c.grownAt k names) friends' := by
  unfold Proc.readReply at transition
  cases here : friends.root? k with
  | none =>
    rw [here] at transition
    cases transition
  | some f =>
    have some' : f.stdout ≠ [] := by
      rintro empty
      simp [here, empty] at transition
    obtain ⟨-, ⟨a, below, others, tree, replied⟩, after⟩ := serving.read here some'
    have short : f.stdout.length ≤ min count MAX_FRIEND_NAME_LEN := by
      rw [here] at whole
      refine Nat.le_min.mpr ⟨whole, ?_⟩
      rw [replied]
      exact serving.reply_short tree
    have all : f.stdout.take (min count MAX_FRIEND_NAME_LEN) = f.stdout :=
      List.take_of_length_le short
    simp only [here, Option.bind_eq_bind, Option.bind_some, all, some', if_false] at transition
    obtain ⟨rfl, rfl⟩ := Prod.mk.inj (Option.some.inj transition)
    refine ⟨a, below, others, tree, by rw [replied], ?_⟩
    rw [Forest.modify_congr here (g := fun f => { f with stdout := [] }) (by simp)]
    exact after

/-- The command grows the first tree when its first children lead to the parent. -/
theorem grownAt_zero (leads : Leads c.parent names) :
    c.grownAt 0 names = names.graft c.parent c.childName := by
  cases names with
  | nil => exact leads.elim
  | node a below others =>
    simp only [Call.grownAt, Call.grown, Forest.graft]
    by_cases own : a = c.parent
    · rw [if_pos own, if_pos own]
    · rw [if_neg own, if_neg own, if_pos (leads.resolve_left own).mem]

/-- The whole reply of a first child. -/
theorem Serving.readFirst (leads : Leads c.parent names)
    (serving : Serving c 0 left names friends) {p p' : Proc} {count : Nat}
    (whole : ((friends.root? 0).map fun f => f.stdout.length).getD 0 ≤ count)
    (transition : p.readReply friends c 0 blank count = some (p', friends')) :
    p' = p.goTo (.relay c 0 (padded c.parent)) ∧
      Still (names.graft c.parent c.childName) friends' := by
  obtain ⟨a, below, others, here, rfl, grown⟩ := serving.readReply whole transition
  rw [grownAt_zero leads] at grown
  change names = _ at here
  subst here
  have found : c.reply a below = c.parent := by
    unfold Call.reply
    rw [if_pos (leads.imp_right Leads.mem)]
  rw [found]
  exact ⟨rfl, grown⟩

/-- A step among friends one of which serves a command. -/
theorem Serving.stepAt (valid : c.Valid line) {count : Nat} {place : Place}
    (serving : Serving c k left names friends) (whole : unreadAt friends place ≤ count)
    (transition : stepAt count friends place = some friends') :
    ∃ left', Serving c k left' names friends' ∧
      (left' < left ∨ left' = left ∧ starting friends' < starting friends) := by
  induction serving generalizing place friends' with
  | @own a left below others p friends rest named phase still =>
    cases stepAt_cases transition with
    | here stepped =>
      obtain ⟨left', serving, fewer⟩ := phase.step valid named still stepped
      refine ⟨left', serving, fewer.imp_right ?_⟩
      rintro ⟨same, begun, running, rfl⟩
      exact ⟨same, by simp [starting, begun, running]⟩
    | child stepped =>
      obtain ⟨phase, fewer⟩ := phase.stepAt stepped
      refine ⟨_, .own named phase still, .inr ⟨rfl, ?_⟩⟩
      simp only [starting]
      omega
    | next stepped =>
      obtain ⟨rest, fewer⟩ := still.stepAt stepped
      refine ⟨_, .own named phase rest, .inr ⟨rfl, ?_⟩⟩
      simp only [starting]
      omega
  | @awaiting a left below others friends rest named other leads serving still ih =>
    cases stepAt_cases transition with
    | here stepped =>
      obtain ⟨rfl, grown⟩ := serving.readFirst leads whole stepped
      exact ⟨1, .own named (.relaying other leads grown) still, .inl (by omega)⟩
    | child stepped =>
      obtain ⟨left', serving, fewer⟩ := ih whole stepped
      refine ⟨_, .awaiting named other leads serving still, ?_⟩
      simp only [starting]
      omega
    | next stepped =>
      obtain ⟨rest, fewer⟩ := still.stepAt stepped
      refine ⟨_, .awaiting named other leads serving rest, .inr ⟨rfl, ?_⟩⟩
      simp only [starting]
      omega
  | beside rests still serving ih =>
    cases stepAt_cases transition with
    | here stepped =>
      obtain ⟨rests, rfl, begun, running⟩ := rests.wakes stepped
      exact ⟨_, .beside rests still serving, .inr ⟨rfl, by simp [starting, begun, running]⟩⟩
    | child stepped =>
      obtain ⟨still, fewer⟩ := still.stepAt stepped
      refine ⟨_, .beside rests still serving, .inr ⟨rfl, ?_⟩⟩
      simp only [starting]
      omega
    | next stepped =>
      obtain ⟨left', serving, fewer⟩ := ih whole stepped
      refine ⟨left', .beside rests still serving, ?_⟩
      simp only [starting]
      omega

/-- A friend at its place makes its step. -/
theorem stepAt_here {p : Proc} {rest : Forest Proc} {count : Nat}
    (possible : ∃ after, p.step friends count = some after) :
    ∃ after, stepAt count (.node p friends rest) .here = some after := by
  obtain ⟨⟨p', friends'⟩, stepped⟩ := possible
  exact ⟨.node p' friends' rest, by simp [Friend.stepAt, stepped]⟩

/-- A reply that is there is read. -/
theorem readReply_possible (p : Proc) (call : Call) (middle : List Char) {f : Proc}
    (here : friends.root? k = some f) (replied : f.stdout ≠ []) {count : Nat}
    (some' : 0 < count) : ∃ after, p.readReply friends call k middle count = some after := by
  have room : min count MAX_FRIEND_NAME_LEN ≠ 0 := by
    have buffer : 0 < MAX_FRIEND_NAME_LEN := by decide
    omega
  have bytes : f.stdout.take (min count MAX_FRIEND_NAME_LEN) ≠ [] := by
    rw [ne_eq, List.take_eq_nil_iff, not_or]
    exact ⟨room, replied⟩
  unfold Proc.readReply
  simp only [here, Option.bind_eq_bind, Option.bind_some, bytes, if_false]
  exact ⟨_, rfl⟩

/-- In each phase of its own a friend can go on or has replied. -/
theorem Phase.possible (valid : c.Valid line) {a : List Char} (named : IsName a) {p : Proc}
    (phase : Phase c a names left p friends) :
    p.stdout ≠ [] ∨ ∀ count, ∃ after, p.step friends count = some after := by
  have inside := phase.named
  cases phase with
  | asked rests =>
    right
    cases rests with
    | loop => exact fun count => ⟨_, step_command valid a [] friends count⟩
    | start named inside parsed =>
      exact fun count => ⟨_, step_start named inside parsed friends count⟩
  | relaying other leads =>
    have known := inside _ leads.mem
    right
    exact fun count => ⟨_, step_relay_name named known⟩
  | replied =>
    left
    unfold Proc.at Call.reply
    dsimp only
    split
    · rename_i found
      rcases found with own | known
      · rw [← own]
        exact named.nonempty
      · exact (inside _ known).nonempty
    · simp
  | _ => exact .inr fun count => ⟨_, rfl⟩

/-- Until tree `k` has replied, some step is possible. -/
theorem Serving.possible (valid : c.Valid line) (serving : Serving c k left names friends) :
    (∃ f, friends.root? k = some f ∧ f.stdout ≠ []) ∨
      ∃ place, ∀ count, 0 < count → ∃ after, Friend.stepAt count friends place = some after := by
  induction serving with
  | own named phase still =>
    rcases phase.possible valid named with replied | goes
    · exact .inl ⟨_, rfl, replied⟩
    · exact .inr ⟨.here, fun count _ => stepAt_here (goes count)⟩
  | @awaiting a left below others friends rest named other leads serving still ih =>
    right
    rcases ih with ⟨f, here, replied⟩ | ⟨place, goes⟩
    · refine ⟨.here, fun count some' => ?_⟩
      have reads := readReply_possible (.at a (.await c 0 blank) [] []) c blank here replied some'
      exact stepAt_here (p := .at a (.await c 0 blank) [] []) reads
    · refine ⟨.child place, fun count some' => ?_⟩
      obtain ⟨after, stepped⟩ := goes count some'
      exact ⟨.node (.at a (.await c 0 blank) [] []) after rest, by simp [Friend.stepAt, stepped]⟩
  | @beside a k left below others p friends rest rests still serving ih =>
    rcases ih with ⟨f, here, replied⟩ | ⟨place, goes⟩
    · exact .inl ⟨f, here, replied⟩
    · refine .inr ⟨.next place, fun count some' => ?_⟩
      obtain ⟨after, stepped⟩ := goes count some'
      exact ⟨.node p friends after, by simp [Friend.stepAt, stepped]⟩

end

end NTUSP.Friend
