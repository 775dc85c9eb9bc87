import NTUSP.Friend.Attending

/-!
# The friends that have been met

When no command takes a detour and every read gets the whole of what is pending, the tree of
processes and the terminal are those of the commands given so far whenever Not_Tako waits, all
reply pipes are empty then, and Not_Tako comes to wait again after every command, whatever the
schedule. A command that takes a detour leaves bytes in a reply pipe.
-/

namespace NTUSP.Friend

open NTUSP.Library CString

namespace World

/-- The tree of the processes, by the name each was started with. -/
def names (w : World) : Forest (List Char) := w.friends.map Proc.info

/-- The command that an action gives. -/
def command (_ : World) : Action → List (List Char × List Char)
  | .meet parent child _ => [(parent, child)]
  | .run _ _ => []

end World

/-- Every command names a new friend. -/
def newFriends (w : World) : Action → Prop
  | .meet parent child value => WellFormed parent child value ∧ child ∉ w.names.labels
  | .run _ _ => True

/-- A read is let through all that is pending. -/
def readsWhole (w : World) : Action → Prop
  | .meet _ _ _ => True
  | .run place count => w.unread place ≤ count

/-- A command finds the friend that it asks for without a detour. -/
def findsStraight (w : World) : Action → Prop
  | .meet parent _ _ => parent = rootName ∨ Straight parent w.names
  | .run _ _ => True

/-- A step of a run without detours. -/
def direct (w : World) (action : Action) : Prop :=
  newFriends w action ∧ readsWhole w action ∧ findsStraight w action

instance (w : World) : (action : Action) → Decidable (newFriends w action)
  | .meet parent child value =>
      inferInstanceAs (Decidable (WellFormed parent child value ∧ child ∉ w.names.labels))
  | .run _ _ => inferInstanceAs (Decidable True)

instance (w : World) : (action : Action) → Decidable (readsWhole w action)
  | .meet _ _ _ => inferInstanceAs (Decidable True)
  | .run place count => inferInstanceAs (Decidable (w.unread place ≤ count))

instance (w : World) : (action : Action) → Decidable (findsStraight w action)
  | .meet parent _ _ => inferInstanceAs (Decidable (parent = rootName ∨ Straight parent w.names))
  | .run _ _ => inferInstanceAs (Decidable True)

instance (w : World) (action : Action) : Decidable (direct w action) := by
  unfold direct
  infer_instance

/-- The processes run, with whole reads, and no command is given. -/
def running (w : World) (action : Action) : Prop := readsWhole w action ∧ w.command action = []

/-- The friends with the commands given so far. -/
def commanded : Machine (World × List (List Char × List Char)) Action :=
  machine.recording World.command

/-- The last command is being attended to. -/
structure InCommand (commands : List (List Char × List Char)) (left : Nat) (w : World) : Prop where
  attending : ∃ earlier c line, commands = earlier ++ [(c.parent, c.childName)] ∧
    Call.Valid c line ∧
      Attending c (Circle.behind earlier).friends (Circle.behind earlier).printed left w

section

variable {w w' : World} {commands : List (List Char × List Char)} {circle : Circle}

theorem Settled.names (settled : Settled circle w) : w.names = circle.friends := by
  apply settled.still.map_eq
  intro a p rests
  cases rests <;> rfl

theorem Settled.silent (settled : Settled circle w) : ∀ p ∈ w.friends.labels, p.stdout = [] := by
  intro p member
  obtain ⟨a, _, rests⟩ := settled.still.exists_of_mem member
  cases rests <;> rfl

theorem settled_start : Settled Circle.alone .start := ⟨rfl, .nil⟩

/-- A process that waits for a command does nothing before it. -/
theorem Settled.run (settled : Settled circle w) {place : Place} {count : Nat}
    (transition : w.step (.run place count) = some w') : Settled circle w' := by
  obtain ⟨p, friends⟩ := w
  obtain ⟨rfl, still⟩ := settled
  cases place with
  | here =>
    simp [World.step, step_at_loop] at transition
  | child place =>
    obtain ⟨friends', stepped, rfl⟩ := Option.map_eq_some_iff.mp transition
    exact ⟨rfl, (Still.stepAt still stepped).1⟩
  | next place => cases transition

/-- A new command is attended to. -/
theorem Settled.meet (settled : Settled (Circle.behind commands) w)
    {parent child value : List Char} (formed : WellFormed parent child value)
    (straight : parent = rootName ∨ Straight parent w.names)
    (transition : w.step (.meet parent child value) = some w') :
    ∃ left, InCommand (commands ++ [(parent, child)]) left w' := by
  rw [settled.names] at straight
  obtain ⟨p, friends⟩ := w
  obtain ⟨rfl, still⟩ := settled
  simp only [World.step] at transition
  split at transition
  · cases transition
    let c : Call :=
      { toChildCmd := meetLine parent child value ++ ['\n'], parent, childName := child }
    have valid : c.Valid (meetLine parent child value) :=
      { text := rfl
        inside := meetLine_line formed
        nonempty := meetLine_ne_nil parent child value
        fits := formed.fits
        parsed := parse_meetLine formed
        named := formed.name }
    exact ⟨_, commands, c, _, rfl, valid, .commanded straight still⟩
  · cases transition

/-- A step during a command goes on with it or ends it. -/
theorem InCommand.run {left : Nat} (busy : InCommand commands left w) {place : Place} {count : Nat}
    (whole : w.unread place ≤ count) (transition : w.step (.run place count) = some w') :
    Settled (Circle.behind commands) w' ∨
      ∃ left', InCommand commands left' w' ∧
        (left' < left ∨ left' = left ∧ starting w'.friends < starting w.friends) := by
  obtain ⟨earlier, c, line, rfl, valid, attending⟩ := busy.attending
  rw [Circle.behind_append]
  rcases attending.step valid whole transition with settled | ⟨left', still, fewer⟩
  · exact .inl settled
  · exact .inr ⟨left', ⟨earlier, c, line, rfl, valid, still⟩, fewer⟩

/-- Not_Tako does not wait during a command. -/
theorem InCommand.not_finished {left : Nat} (busy : InCommand commands left w) : ¬ w.Finished := by
  obtain ⟨earlier, c, line, rfl, valid, attending⟩ := busy.attending
  rintro ⟨idle, empty⟩
  cases attending with
  | commanded =>
    change c.toChildCmd = [] at empty
    rw [valid.text] at empty
    simp at empty
  | _ => cases idle

/-- However the processes are scheduled, the command is finished. -/
theorem InCommand.inevitable {left : Nat} (busy : InCommand commands left w) :
    machine.Inevitable running World.Finished w := by
  have wellFounded : WellFounded (Prod.Lex (· < ·) (· < ·) : Nat × Nat → Nat × Nat → Prop) :=
    (Prod.lex Nat.lt_wfRel Nat.lt_wfRel).wf
  refine Machine.Inevitable.of_variant wellFounded
    (fun measure w => InCommand commands measure.1 w ∧ starting w.friends = measure.2) ?_ ?_
    (left, starting w.friends) ⟨busy, rfl⟩
  · rintro measure w ⟨busy, _⟩
    obtain ⟨earlier, c, line, rfl, valid, attending⟩ := busy.attending
    obtain ⟨place, goes⟩ := attending.possible valid
    obtain ⟨after, stepped⟩ := goes (w.unread place + 1) (by omega)
    exact ⟨.run place (w.unread place + 1), after, ⟨Nat.le_succ _, rfl⟩, stepped⟩
  · rintro ⟨left, _⟩ w action w' ⟨busy, rfl⟩ ⟨whole, silent⟩ transition
    cases action with
    | meet parent child value => cases silent
    | run place count =>
      rcases busy.run whole transition with settled | ⟨left', still, fewer⟩
      · left
        rw [World.Finished, settled.root]
        exact ⟨rfl, rfl⟩
      · refine .inr ⟨(left', starting w'.friends), ?_, still, rfl⟩
        rcases fewer with less | ⟨rfl, less⟩
        · exact .left _ _ less
        · exact .right _ less

end

/-- A command is given to a Not_Tako that waits. -/
theorem settled_of_meet {w w' : World} {commands : List (List Char × List Char)}
    {parent child value : List Char}
    (before : Settled (Circle.behind commands) w ∨ ∃ left, InCommand commands left w)
    (transition : w.step (.meet parent child value) = some w') :
    Settled (Circle.behind commands) w := by
  rcases before with settled | ⟨left, busy⟩
  · exact settled
  · have blocked : w.step (.meet parent child value) = none := if_neg busy.not_finished
    rw [blocked] at transition
    cases transition

/-- In a run without detours Not_Tako waits or attends to the last command. -/
theorem settled_or_inCommand {w : World} {commands : List (List Char × List Char)}
    (reached : commanded.Reach (fun state => direct state.1) (w, commands)) :
    Settled (Circle.behind commands) w ∨ ∃ left, InCommand commands left w := by
  refine reached.invariant
    (fun state => Settled (Circle.behind state.2) state.1 ∨
      ∃ left, InCommand state.2 left state.1) ?_ ?_
  · rintro ⟨w, commands⟩ ⟨first, empty⟩
    have start : w = .start := first
    have none : commands = [] := empty
    subst start none
    exact .inl settled_start
  · rintro ⟨w, commands⟩ action ⟨w', commands'⟩ _ before ⟨formed, whole, straight⟩ transition
    obtain ⟨stepped, grown⟩ := Machine.recording_step transition
    change commands' = commands ++ w.command action at grown
    subst grown
    cases action with
    | meet parent child value =>
      exact .inr ((settled_of_meet before stepped).meet formed.1 straight stepped)
    | run place count =>
      rw [show w.command (.run place count) = [] from rfl, List.append_nil]
      rcases before with settled | ⟨left, busy⟩
      · exact .inl (settled.run stepped)
      · exact (busy.run whole stepped).imp_right fun ⟨left', still, _⟩ => ⟨left', still⟩

/-- No two friends of a run have one name. -/
theorem distinct_reached {w : World} {commands : List (List Char × List Char)}
    (reached : commanded.Reach (fun state => direct state.1) (w, commands)) :
    (Circle.behind commands).friends.labels.Nodup := by
  refine reached.invariant (fun state => (Circle.behind state.2).friends.labels.Nodup) ?_ ?_
  · rintro ⟨w, commands⟩ ⟨_, empty⟩
    have none : commands = [] := empty
    subst none
    exact List.nodup_nil
  · rintro ⟨w, commands⟩ action ⟨w', commands'⟩ prior distinct ⟨formed, _⟩ transition
    obtain ⟨stepped, grown⟩ := Machine.recording_step transition
    change commands' = commands ++ w.command action at grown
    subst grown
    cases action with
    | meet parent child value =>
      have settled := settled_of_meet (settled_or_inCommand prior) stepped
      have new := formed.2
      rw [settled.names] at new
      change (Circle.behind (commands ++ [(parent, child)])).friends.labels.Nodup
      rw [Circle.behind_append]
      exact Circle.nodup_meet distinct new
    | run place count =>
      rw [show w.command (.run place count) = [] from rfl, List.append_nil]
      exact distinct

/-- In every run in which reads get all that is pending and the friends asked for are found
without a detour, a waiting Not_Tako has the tree of all commands given, with each name once,
has said of each command what it should, and finds every reply pipe empty. After a command it
waits again, however the processes are scheduled. -/
theorem met_of_direct {w : World} {commands : List (List Char × List Char)}
    (reached : commanded.Reach (fun state => direct state.1) (w, commands)) :
    (w.Finished → w.names = (Circle.behind commands).friends ∧ w.names.labels.Nodup ∧
      w.root.stdout = (Circle.behind commands).printed ∧
        ∀ p ∈ w.friends.labels, p.stdout = []) ∧
      machine.Inevitable running World.Finished w := by
  rcases settled_or_inCommand reached with settled | ⟨left, busy⟩
  · constructor
    · intro _
      refine ⟨settled.names, ?_, ?_, settled.silent⟩
      · rw [settled.names]
        exact distinct_reached reached
      · rw [settled.root]
        rfl
    · refine .now ?_
      rw [World.Finished, settled.root]
      exact ⟨rfl, rfl⟩
  · exact ⟨fun waits => absurd waits busy.not_finished, busy.inevitable⟩

/-! ## Two runs -/

/-- Steps of Not_Tako. -/
def rootRuns (steps : Nat) : List Action := List.replicate steps (.run .here 9)

/-- Steps of the first friend. -/
def firstRuns (steps : Nat) : List Action := List.replicate steps (.run (.child .here) 9)

/-- Steps of the first friend of the first friend. -/
def secondRuns (steps : Nat) : List Action :=
  List.replicate steps (.run (.child (.child .here)) 9)

/-- `Meet parent child_1`. -/
def meets (parent child : String) : Action := .meet parent.toList child.toList ['1']

/-- Not_Tako has met a friend. -/
def metOne : World where
  root := .at rootName .loop [] (printDirectMeet ['A'])
  friends := .node (.at ['A'] .loop [] []) .nil .nil

/-- Not_Tako has met another friend through the first. -/
def metTwo (printed : List Char) : World where
  root := .at rootName .loop [] printed
  friends := .node (.at ['A'] .loop [] []) (.node (.at ['B'] .loop [] []) .nil .nil) .nil

theorem metOne_reached :
    commanded.Reach (fun state => direct state.1) (metOne, [("Not_Tako".toList, ['A'])]) := by
  have ran : commanded.exec (fun state action => direct state.1 action) (.start, [])
      (meets "Not_Tako" "A" :: rootRuns 4 ++ firstRuns 1) =
        some (metOne, [("Not_Tako".toList, ['A'])]) := by
    decide +kernel
  have start : commanded.Initial (.start, []) := ⟨rfl, rfl⟩
  exact Machine.Reach.exec (fun _ _ passed => of_decide_eq_true passed) (.initial start) ran

/-- Not_Tako meets a friend, asks in vain for a stranger, and meets another friend through
the first. -/
theorem met_in_turn :
    ∃ w, commanded.Reach (fun state => direct state.1)
        (w, [("Not_Tako".toList, ['A']), (['X'], ['C']), (['A'], ['B'])]) ∧
      w.names = .node ['A'] (.node ['B'] .nil .nil) .nil ∧
        (∀ p ∈ w.friends.labels, p.stdout = []) := by
  have stranger : commanded.exec (fun state action => direct state.1 action)
      (metOne, [("Not_Tako".toList, ['A'])])
      (meets "X" "C" :: rootRuns 2 ++ firstRuns 2 ++ rootRuns 3) =
        some ({ metOne with
            root := .at rootName .loop [] (printDirectMeet ['A'] ++ printFailMeet ['X'] ['C']) },
          [("Not_Tako".toList, ['A']), (['X'], ['C'])]) := by
    decide +kernel
  have friend' : commanded.exec (fun state action => direct state.1 action)
      ({ metOne with
          root := .at rootName .loop [] (printDirectMeet ['A'] ++ printFailMeet ['X'] ['C']) },
        [("Not_Tako".toList, ['A']), (['X'], ['C'])])
      (meets "A" "B" :: rootRuns 2 ++ firstRuns 4 ++ rootRuns 2 ++ secondRuns 1) =
        some (metTwo (printDirectMeet ['A'] ++ printFailMeet ['X'] ['C'] ++
            printIndirectMeet ['A'] ['B']),
          [("Not_Tako".toList, ['A']), (['X'], ['C']), (['A'], ['B'])]) := by
    decide +kernel
  have asked := Machine.Reach.exec (fun _ _ passed => of_decide_eq_true passed) metOne_reached
    stranger
  have reached := Machine.Reach.exec (fun _ _ passed => of_decide_eq_true passed) asked friend'
  obtain ⟨names, _, _, empty⟩ := (met_of_direct reached).1 ⟨rfl, rfl⟩
  exact ⟨_, reached, rfl, empty⟩

/-- A step of a run that may take detours. -/
def roundabout (w : World) (action : Action) : Prop := newFriends w action ∧ readsWhole w action

instance (w : World) (action : Action) : Decidable (roundabout w action) := by
  unfold roundabout
  infer_instance

/-- Not_Tako waits, and the second reply of its friend is still in the pipe. -/
def leftBehind : World where
  root := .at rootName .loop []
    (printDirectMeet ['A'] ++ printIndirectMeet ['A'] ['B'] ++ printFailMeet ['X'] ['C'])
  friends := .node (.at ['A'] .loop [] ['-']) (.node (.at ['B'] .loop [] []) .nil .nil) .nil

/-- A stranger is asked for while the only friend has a friend. The first friend replies twice,
and Not_Tako takes the second reply for one to the next command. -/
theorem reply_left_behind :
    ∃ w commands, commanded.Reach (fun state => roundabout state.1) (w, commands) ∧
      w.Finished ∧ w.root.stdout ≠ (Circle.behind commands).printed ∧
        ∃ p ∈ w.friends.labels, p.stdout ≠ [] := by
  have friend' : commanded.exec (fun state action => roundabout state.1 action)
      (metOne, [("Not_Tako".toList, ['A'])])
      (meets "A" "B" :: rootRuns 2 ++ firstRuns 4 ++ rootRuns 2 ++ secondRuns 1) =
        some (metTwo (printDirectMeet ['A'] ++ printIndirectMeet ['A'] ['B']),
          [("Not_Tako".toList, ['A']), (['A'], ['B'])]) := by
    decide +kernel
  have stranger : commanded.exec (fun state action => roundabout state.1 action)
      (metTwo (printDirectMeet ['A'] ++ printIndirectMeet ['A'] ['B']),
        [("Not_Tako".toList, ['A']), (['A'], ['B'])])
      (meets "X" "C" :: rootRuns 2 ++ firstRuns 2 ++ secondRuns 2 ++ firstRuns 2 ++ rootRuns 3 ++
        firstRuns 1) =
        some (leftBehind, [("Not_Tako".toList, ['A']), (['A'], ['B']), (['X'], ['C'])]) := by
    decide +kernel
  have next : (commanded.exec (fun state action => roundabout state.1 action)
      (leftBehind, [("Not_Tako".toList, ['A']), (['A'], ['B']), (['X'], ['C'])])
      (meets "A" "E" :: rootRuns 5 ++ firstRuns 4)).map (fun state =>
        (state.2, decide state.1.Finished, state.1.root.stdout,
          state.1.friends.labels.map Proc.stdout)) =
      some ([("Not_Tako".toList, ['A']), (['A'], ['B']), (['X'], ['C']), (['A'], ['E'])], true,
        leftBehind.root.stdout ++ printFailMeet ['A'] ['E'], [['A'], [], []]) := by
    decide +kernel
  obtain ⟨⟨w, commands⟩, ran, result⟩ := Option.map_eq_some_iff.mp next
  have start := metOne_reached.mono fun _ _ straight => And.intro straight.1 straight.2.1
  have grown := Machine.Reach.exec (fun _ _ passed => of_decide_eq_true passed) start friend'
  have asked := Machine.Reach.exec (fun _ _ passed => of_decide_eq_true passed) grown stranger
  have reached := Machine.Reach.exec (fun _ _ passed => of_decide_eq_true passed) asked ran
  obtain ⟨given, result⟩ := Prod.mk.inj result
  obtain ⟨finished, result⟩ := Prod.mk.inj result
  obtain ⟨printed, pipes⟩ := Prod.mk.inj result
  change commands = _ at given
  subst given
  refine ⟨w, _, reached, of_decide_eq_true finished, ?_, ?_⟩
  · rw [show w.root.stdout = _ from printed]
    decide +kernel
  · have first : ['A'] ∈ w.friends.labels.map Proc.stdout := by
      rw [show w.friends.labels.map Proc.stdout = _ from pipes]
      exact List.mem_cons_self
    obtain ⟨p, member, replied⟩ := List.mem_map.mp first
    exact ⟨p, member, by simp [replied]⟩

end NTUSP.Friend
