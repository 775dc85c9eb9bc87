import NTUSP.Friend.Serving

/-!
# Not_Tako attending to a command

Not_Tako asks its friends one after the other. Those that have been asked in vain are leaves
with other names, and the one being asked serves the command. When it is done the tree and the
terminal are what `Circle.meet` makes of them.
-/

namespace NTUSP.Friend

open NTUSP.Library CString

/-- The first `k` trees are leaves with other names. -/
def Passed (p : List Char) : Nat → Forest (List Char) → Prop
  | 0, _ => True
  | _ + 1, .nil => False
  | k + 1, .node a below others => a ≠ p ∧ below = .nil ∧ Passed p k others

/-- A bound on the steps it takes to ask every one of the friends. -/
def toll : Forest (List Char) → Nat
  | .nil => 1
  | .node _ below others => 4 * below.spine + 9 + toll others

/-- The buffer holds at most one character. -/
def Fresh (middle : List Char) : Prop := middle.drop 1 = blank.drop 1

section Passed

variable {c : Call} {p a : List Char} {names below others : Forest (List Char)} {k : Nat}

theorem Passed.next (passed : Passed p k names) (here : names.drop k = .node a .nil others)
    (other : a ≠ p) : Passed p (k + 1) names := by
  induction k generalizing names with
  | zero =>
    change names = _ at here
    subst here
    exact ⟨other, rfl, trivial⟩
  | succ k ih =>
    cases names with
    | nil => cases here
    | node b below rest => exact ⟨passed.1, passed.2.1, ih passed.2.2 here⟩

/-- When every friend has been asked in vain, the name is not known. -/
theorem Passed.unknown (passed : Passed p k names) (here : names.drop k = .nil) :
    p ∉ names.labels := by
  induction k generalizing names with
  | zero =>
    change names = _ at here
    subst here
    simp [Forest.labels]
  | succ k ih =>
    cases names with
    | nil => simp [Forest.labels]
    | node b below rest =>
      obtain ⟨other, leaf, passed⟩ := passed
      subst leaf
      have beside := ih passed here
      simp only [Forest.labels, List.mem_cons, List.nil_append, not_or]
      exact ⟨Ne.symm other, beside⟩

/-- The tree that answers is the one that grows. -/
theorem Passed.grownAt (passed : Passed c.parent k names)
    (here : names.drop k = .node a below others) (found : a = c.parent ∨ Leads c.parent below) :
    c.parent ∈ names.labels ∧ c.grownAt k names = names.graft c.parent c.childName := by
  induction k generalizing names with
  | zero =>
    change names = _ at here
    subst here
    have leads : Leads c.parent (.node a below others) := found
    exact ⟨leads.mem, grownAt_zero leads⟩
  | succ k ih =>
    cases names with
    | nil => cases here
    | node b under rest =>
      obtain ⟨other, leaf, passed⟩ := passed
      subst leaf
      obtain ⟨known, grown⟩ := ih passed here
      refine ⟨by simp [Forest.labels, known], ?_⟩
      simp [Call.grownAt, Forest.graft, other, Forest.labels, grown]

/-- A leaf that refuses does not grow. -/
theorem grownAt_leaf (here : names.drop k = .node a .nil others) (other : a ≠ c.parent) :
    c.grownAt k names = names := by
  induction k generalizing names with
  | zero =>
    change names = _ at here
    subst here
    simp [Call.grownAt, Call.grown, other, Forest.graft]
  | succ k ih =>
    cases names with
    | nil => cases here
    | node b under rest => exact congrArg (Forest.node b under) (ih here)

/-- A reply to a fresh buffer is padded with zeros. -/
theorem Fresh.padded {middle text : List Char} (fresh : Fresh middle) (nonempty : text ≠ []) :
    text ++ middle.drop text.length = padded text := by
  obtain ⟨c, rest, rfl⟩ := List.exists_cons_of_ne_nil nonempty
  have same := congrArg (List.drop rest.length) fresh
  rw [List.drop_drop, List.drop_drop, Nat.add_comm] at same
  unfold Friend.padded
  rw [List.length_cons, same]

end Passed

/-- The number of bytes in the reply pipe that the process at a place reads next. -/
def World.unread (w : World) : Place → Nat
  | .here => w.root.unread w.friends
  | .child place => unreadAt w.friends place
  | .next _ => 0

/-- What Not_Tako is doing about a command. -/
inductive Attending (c : Call) (names : Forest (List Char)) (out : List Char) :
    Nat → World → Prop where
  | commanded {friends} (straight : c.parent = rootName ∨ Straight c.parent names)
      (still : Still names friends) :
      Attending c names out (toll names + 5) ⟨.at rootName .loop c.toChildCmd out, friends⟩
  | asking {k middle friends} (other : c.parent ≠ rootName) (passed : Passed c.parent k names)
      (straight : Straight c.parent (names.drop k)) (fresh : Fresh middle)
      (still : Still names friends) :
      Attending c names out (toll (names.drop k)) ⟨.at rootName (.ask c k middle) [] out, friends⟩
  | awaiting {k left middle friends} (other : c.parent ≠ rootName)
      (passed : Passed c.parent k names) (straight : Straight c.parent (names.drop k))
      (fresh : Fresh middle) (serving : Serving c k left names friends) :
      Attending c names out (left + 2 + toll (names.drop (k + 1)))
        ⟨.at rootName (.await c k middle) [] out, friends⟩
  | found {k friends} (other : c.parent ≠ rootName) (known : c.parent ∈ names.labels)
      (still : Still (names.graft c.parent c.childName) friends) :
      Attending c names out 1 ⟨.at rootName (.relay c k (padded c.parent)) [] out, friends⟩
  | missed {k friends} (other : c.parent ≠ rootName) (passed : Passed c.parent (k + 1) names)
      (straight : Straight c.parent (names.drop (k + 1))) (still : Still names friends) :
      Attending c names out (1 + toll (names.drop (k + 1)))
        ⟨.at rootName (.relay c k (padded ['-'])) [] out, friends⟩
  | forking {friends} (own : c.parent = rootName) (still : Still names friends) :
      Attending c names out 3 ⟨.at rootName (.fork c) [] out, friends⟩
  | telling {friends} (own : c.parent = rootName) (still : Still names friends) :
      Attending c names out 2
        ⟨.at rootName (.tell c) [] out, friends.snoc (.spawn c.childName)⟩
  | reporting {friends} (own : c.parent = rootName)
      (still : Still (names.snoc c.childName) friends) :
      Attending c names out 1 ⟨.at rootName (.report c) [] out, friends⟩

/-- Not_Tako waits for a command, with everything said and every friend at rest. -/
structure Settled (circle : Circle) (w : World) : Prop where
  root : w.root = .at rootName .loop [] circle.printed
  still : Still circle.friends w.friends

section

variable {c : Call} {line out : List Char} {names : Forest (List Char)} {friends friends' : Forest Proc}
  {left count : Nat} {w w' : World} {p p' : Proc}

theorem isNotTako_root (pc : Pc) (stdin stdout : List Char) :
    (Proc.at rootName pc stdin stdout).isNotTako = true := by
  simp [Proc.isNotTako, Proc.at]

/-- The tree and the terminal behind the command. -/
def Call.circle (c : Call) (names : Forest (List Char)) (out : List Char) : Circle :=
  ({ friends := names, printed := out } : Circle).meet c.parent c.childName

/-- Not_Tako has asked everyone. -/
theorem step_ask_last {k : Nat} {middle : List Char} (last : ¬ k < friends.length) :
    (Proc.at rootName (.ask c k middle) [] out).step friends count =
      some (.at rootName .loop [] (out ++ printFailMeet c.parent c.childName), friends) := by
  simp [step_ask, Proc.askNext, last, isNotTako_root]

/-- Not_Tako reports that the parent was found. -/
theorem step_relay_found (named : IsName c.parent) (k : Nat) (friends : Forest Proc) (count : Nat) :
    (Proc.at rootName (.relay c k (padded c.parent)) [] out).step friends count =
      some (.at rootName .loop [] (out ++ printIndirectMeet c.parent c.childName), friends) := by
  simp [step_relay, Proc.relayReply, isNotTako_root, zero_mem_padded named, head_padded named,
    cstr_padded named]

/-- Not_Tako asks the next friend after a refusal. -/
theorem step_relay_missed (k : Nat) (friends : Forest Proc) (count : Nat) :
    (Proc.at rootName (.relay c k (padded ['-'])) [] out).step friends count =
      some (.at rootName (.ask c (k + 1) (padded ['-'])) [] out, friends) := by
  simp [step_relay, Proc.relayReply, isNotTako_root, padded]

theorem step_report_root :
    (Proc.at rootName (.report c) [] out).step friends count =
      some (.at rootName .loop [] (out ++ printDirectMeet c.childName), friends) := by
  change some ((Proc.print _ (if _ then _ else _)).goTo _, friends) = _
  simp [isNotTako_root]

/-- Not_Tako asks its next friend, or gives up behind the last one. -/
theorem Attending.ask {k : Nat} {middle : List Char} (other : c.parent ≠ rootName)
    (passed : Passed c.parent k names) (straight : Straight c.parent (names.drop k))
    (fresh : Fresh middle) (still : Still names friends)
    (transition : (Proc.at rootName (.ask c k middle) [] out).step friends count =
      some (p', friends')) :
    (∃ left' < toll (names.drop k), Attending c names out left' ⟨p', friends'⟩) ∨
      Settled (c.circle names out) ⟨p', friends'⟩ := by
  cases here : names.drop k with
  | nil =>
    have last : ¬ k < friends.length := by
      rw [still.length_eq, Nat.not_lt]
      exact Forest.drop_eq_nil_iff.mp here
    rw [step_ask_last last] at transition
    cases transition
    refine .inr ⟨?_, ?_⟩ <;>
      simp only [Call.circle, Circle.meet, other, passed.unknown here, if_false]
    exact still
  | node a below others =>
    have more : k < friends.length := by
      rw [still.length_eq]
      by_contra last
      rw [Forest.drop_eq_nil_iff.mpr (Nat.not_lt.mp last)] at here
      cases here
    rw [step_ask_child more] at transition
    cases transition
    have way : Straight c.parent (.node a below others) := here ▸ straight
    have answers : c.Answers a below := way.imp_right (Or.imp_right And.left)
    refine .inl ⟨_, ?_, .awaiting other passed straight fresh (still.hand here answers)⟩
    rw [Forest.drop_succ here]
    simp only [toll]
    omega

/-- Not_Tako reads the name of the parent or a refusal. -/
theorem Attending.readReply {k : Nat} {middle : List Char} (other : c.parent ≠ rootName)
    (passed : Passed c.parent k names) (straight : Straight c.parent (names.drop k))
    (fresh : Fresh middle) (serving : Serving c k left names friends)
    (whole : ((friends.root? k).map fun f => f.stdout.length).getD 0 ≤ count)
    (transition : (Proc.at rootName (.await c k middle) [] out).readReply friends c k middle count =
      some (p', friends')) :
    ∃ left' < left + 2 + toll (names.drop (k + 1)), Attending c names out left' ⟨p', friends'⟩ := by
  obtain ⟨a, below, others, here, rfl, grown⟩ := serving.readReply whole transition
  have next := Forest.drop_succ here
  rw [here] at straight
  by_cases found : a = c.parent ∨ Leads c.parent below
  · obtain ⟨known, same⟩ := passed.grownAt here found
    have replied : c.reply a below = c.parent := by
      unfold Call.reply
      rw [if_pos (found.imp_right Leads.mem)]
    have named : IsName c.parent := serving.named _ known
    rw [replied, fresh.padded named.nonempty]
    exact ⟨1, by omega, .found other known (same ▸ grown)⟩
  · rw [not_or] at found
    obtain ⟨rfl, behind⟩ := (straight.resolve_left found.1).resolve_left found.2
    have replied : c.reply a .nil = ['-'] := by simp [Call.reply, found.1, Forest.labels]
    rw [replied, fresh.padded (by simp)]
    rw [grownAt_leaf here found.1] at grown
    rw [← next] at behind
    exact ⟨_, by omega, .missed other (passed.next here found.1) behind grown⟩

/-- A step of Not_Tako goes on with the command or ends it. -/
theorem Attending.stepRoot (valid : c.Valid line) (whole : p.unread friends ≤ count)
    (attending : Attending c names out left ⟨p, friends⟩)
    (transition : p.step friends count = some (p', friends')) :
    (∃ left' < left, Attending c names out left' ⟨p', friends'⟩) ∨
      Settled (c.circle names out) ⟨p', friends'⟩ := by
  cases attending with
  | commanded straight still =>
    rw [step_command valid] at transition
    cases transition
    by_cases own : c.parent = rootName
    · rw [if_neg (not_not.mpr own)]
      exact .inl ⟨3, by omega, .forking own still⟩
    · rw [if_pos own]
      exact .inl ⟨toll names, by omega,
        .asking (k := 0) own trivial (straight.resolve_left own) rfl still⟩
  | asking other passed straight fresh still =>
    exact Attending.ask other passed straight fresh still transition
  | awaiting other passed straight fresh serving =>
    exact .inl (Attending.readReply other passed straight fresh serving whole transition)
  | @found k _ other known still =>
    have named : IsName c.parent := still.named _ (Forest.mem_graft.mpr (.inl known))
    rw [step_relay_found named] at transition
    cases transition
    refine .inr ⟨?_, ?_⟩ <;> simp only [Call.circle, Circle.meet, other, known, if_false, if_true]
    exact still
  | @missed k _ other passed straight still =>
    rw [step_relay_missed] at transition
    cases transition
    exact .inl ⟨_, by omega, .asking other passed straight rfl still⟩
  | forking own still =>
    cases transition
    exact .inl ⟨2, by omega, .telling own still⟩
  | @telling friends own still =>
    rw [step_tell] at transition
    cases transition
    exact .inl ⟨1, by omega, .reporting own (still.snoc (rests_newborn valid))⟩
  | reporting own still =>
    rw [step_report_root] at transition
    cases transition
    refine .inr ⟨?_, ?_⟩ <;> simp only [Call.circle, Circle.meet, own, if_true]
    exact still

/-- A step of a friend goes on with the command, or starts a process. -/
theorem Attending.stepFriend (valid : c.Valid line) {place : Place}
    (whole : unreadAt friends place ≤ count) (attending : Attending c names out left ⟨p, friends⟩)
    (transition : stepAt count friends place = some friends') :
    ∃ left', Attending c names out left' ⟨p, friends'⟩ ∧
      (left' < left ∨ left' = left ∧ starting friends' < starting friends) := by
  cases attending with
  | commanded straight still =>
    obtain ⟨still, fewer⟩ := still.stepAt transition
    exact ⟨_, .commanded straight still, .inr ⟨rfl, fewer⟩⟩
  | asking other passed straight fresh still =>
    obtain ⟨still, fewer⟩ := still.stepAt transition
    exact ⟨_, .asking other passed straight fresh still, .inr ⟨rfl, fewer⟩⟩
  | awaiting other passed straight fresh serving =>
    obtain ⟨left', serving, fewer⟩ := serving.stepAt valid whole transition
    exact ⟨_, .awaiting other passed straight fresh serving, by omega⟩
  | found other known still =>
    obtain ⟨still, fewer⟩ := still.stepAt transition
    exact ⟨_, .found other known still, .inr ⟨rfl, fewer⟩⟩
  | missed other passed straight still =>
    obtain ⟨still, fewer⟩ := still.stepAt transition
    exact ⟨_, .missed other passed straight still, .inr ⟨rfl, fewer⟩⟩
  | forking own still =>
    obtain ⟨still, fewer⟩ := still.stepAt transition
    exact ⟨_, .forking own still, .inr ⟨rfl, fewer⟩⟩
  | telling own still =>
    obtain ⟨before, stepped, rfl⟩ := stepAt_snoc_spawn transition
    obtain ⟨still, fewer⟩ := still.stepAt stepped
    refine ⟨_, .telling own still, .inr ⟨rfl, ?_⟩⟩
    rw [starting_snoc, starting_snoc]
    omega
  | reporting own still =>
    obtain ⟨still, fewer⟩ := still.stepAt transition
    exact ⟨_, .reporting own still, .inr ⟨rfl, fewer⟩⟩

/-- A step during a command goes on with it or ends it. -/
theorem Attending.step (valid : c.Valid line) {place : Place} (whole : w.unread place ≤ count)
    (attending : Attending c names out left w)
    (transition : w.step (.run place count) = some w') :
    Settled (c.circle names out) w' ∨
      ∃ left', Attending c names out left' w' ∧
        (left' < left ∨ left' = left ∧ starting w'.friends < starting w.friends) := by
  obtain ⟨p, friends⟩ := w
  cases place with
  | here =>
    obtain ⟨⟨p', friends'⟩, stepped, rfl⟩ := Option.map_eq_some_iff.mp transition
    rcases attending.stepRoot valid whole stepped with ⟨left', fewer, still⟩ | settled
    · exact .inr ⟨left', still, .inl fewer⟩
    · exact .inl settled
  | child place =>
    obtain ⟨friends', stepped, rfl⟩ := Option.map_eq_some_iff.mp transition
    exact .inr (attending.stepFriend valid whole stepped)
  | next place => cases transition

/-- Not_Tako makes its step. -/
theorem step_here (possible : ∃ after, w.root.step w.friends count = some after) :
    ∃ after, w.step (.run .here count) = some after := by
  obtain ⟨⟨root, friends⟩, stepped⟩ := possible
  exact ⟨⟨root, friends⟩, by simp [World.step, stepped]⟩

/-- During a command some process can go on. -/
theorem Attending.possible (valid : c.Valid line) (attending : Attending c names out left w) :
    ∃ place, ∀ count, 0 < count → ∃ after, w.step (.run place count) = some after := by
  cases attending with
  | @commanded friends straight still =>
    exact ⟨.here, fun count _ => step_here ⟨_, step_command valid rootName out friends count⟩⟩
  | @awaiting k left middle friends other passed straight fresh serving =>
    rcases serving.possible valid with ⟨f, here, replied⟩ | ⟨place, goes⟩
    · exact ⟨.here, fun count some' => step_here (readReply_possible _ c middle here replied some')⟩
    · refine ⟨.child place, fun count some' => ?_⟩
      obtain ⟨after, stepped⟩ := goes count some'
      exact ⟨⟨.at rootName (.await c k middle) [] out, after⟩, by simp [World.step, stepped]⟩
  | @found k friends other known still =>
    have named : IsName c.parent := still.named _ (Forest.mem_graft.mpr (.inl known))
    exact ⟨.here, fun count _ => step_here ⟨_, step_relay_found named k friends count⟩⟩
  | @missed k friends other passed straight still =>
    exact ⟨.here, fun count _ => step_here ⟨_, step_relay_missed k friends count⟩⟩
  | _ => exact ⟨.here, fun count _ => step_here ⟨_, rfl⟩⟩

end

end NTUSP.Friend
