import NTUSP.Friend.Effort

/-!
# Every command comes to an end

Replies may come in parts, be left behind and be taken for others, and a friend may be asked more
often than it should. Not_Tako still comes to wait for the next command, whatever the schedule,
unless a process fills the buffer for a reply to the last byte and prints it without an end. And
until the next command the processes make a bounded number of steps.
-/

namespace NTUSP.Friend

open NTUSP.Library CString

namespace World

/-- A process is about to print a buffer without an end. -/
def Overfull (w : World) : Prop := w.root.Overfull ∨ ∃ q ∈ w.friends.labels, q.Overfull

/-- Not_Tako and his friends after these lines. -/
structure Good (lines : List (List Char)) (w : World) : Prop where
  obeys : w.Obeys lines
  commands : ∀ line ∈ lines, IsCommand line
  tends : w.root.Tends w.friends
  good : w.friends.All Proc.Good

end World

/-- A command is one that the friends can read. -/
def wellFormed (_ : World) : Action → Prop
  | .meet parent child value => WellFormed parent child value
  | .run _ _ => True

instance (w : World) : (action : Action) → Decidable (wellFormed w action)
  | .meet parent child value => inferInstanceAs (Decidable (WellFormed parent child value))
  | .run _ _ => inferInstanceAs (Decidable True)

/-- The user gives no command. -/
def silent (w : World) (action : Action) : Prop := w.line action = []

/-- Steps of processes. -/
def runs (schedule : List (Place × Nat)) : List Action :=
  schedule.map fun (place, count) => .run place count

section

variable {w w' : World} {lines : List (List Char)} {place : Place} {count : Nat}

theorem good_start : World.Good [] .start where
  obeys := obeys_start
  commands := nofun
  tends := .of_told nofun nofun nofun
  good := trivial

theorem World.Good.meet (good : w.Good lines) {parent child value : List Char}
    (formed : WellFormed parent child value)
    (transition : w.step (.meet parent child value) = some w') :
    w'.Good (lines ++ [meetLine parent child value]) := by
  have obeys := good.obeys.meet (meetLine_line formed) transition
  have commands : ∀ line ∈ lines ++ [meetLine parent child value], IsCommand line := by
    intro line member
    rcases List.mem_append.mp member with old | new
    · exact good.commands line old
    · exact ⟨parent, child, value, List.mem_singleton.mp new, formed⟩
  unfold World.step at transition
  dsimp only at transition
  split at transition
  · cases transition
    exact ⟨obeys, commands, ⟨good.tends.owed, good.tends.told, good.tends.newborn⟩, good.good⟩
  · cases transition

/-- What Not_Tako's friends have been handed. -/
theorem World.Good.given (good : w.Good lines) :
    ∃ heard ahead, w.root.Obeys heard ahead w.friends ∧ Heard (w.root.pc.handed heard) w.friends ∧
      (∀ line ∈ heard ++ ahead, IsCommand line) ∧
        ∀ j, ∀ line ∈ w.root.pc.handed heard j, IsCommand line := by
  obtain ⟨heard, ahead, all, does, below⟩ := good.obeys.lines
  have commands := good.commands
  rw [← all] at commands
  exact ⟨heard, ahead, does, below, commands, fun j line member =>
    commands line (List.mem_append_left _ ((handed_sublist _ heard j).subset member))⟩

theorem World.Good.run (good : w.Good lines)
    (transition : w.step (.run place count) = some w') : w'.Good lines := by
  have obeys := good.obeys.run transition
  obtain ⟨heard, ahead, does, below, commands, handed⟩ := good.given
  cases place with
  | here =>
    obtain ⟨⟨root, friends⟩, stepped, same⟩ := Option.map_eq_some_iff.mp transition
    cases same
    obtain ⟨tends, friendly⟩ := good.tends.step does
      (fun line member => commands line (List.mem_append_left _ member)) good.good stepped
    exact ⟨obeys, good.commands, tends, friendly⟩
  | child place =>
    obtain ⟨friends, stepped, same⟩ := Option.map_eq_some_iff.mp transition
    cases same
    obtain ⟨kept, friendly⟩ := below.kept handed good.good stepped
    exact ⟨obeys, good.commands, good.tends.along kept, friendly⟩
  | next place => cases transition

/-- Every step is one step less. -/
theorem World.Good.effort_run (good : w.Good lines)
    (transition : w.step (.run place count) = some w') : w'.effort < w.effort := by
  obtain ⟨heard, ahead, does, below, _⟩ := good.given
  cases place with
  | here =>
    obtain ⟨⟨root, friends⟩, stepped, same⟩ := Option.map_eq_some_iff.mp transition
    cases same
    exact does.effort_step good.tends stepped 0
  | child place =>
    obtain ⟨friends, stepped, same⟩ := Option.map_eq_some_iff.mp transition
    cases same
    have length : friends.length = w.friends.length := by
      have same := congrArg List.length (below.step stepped).1
      simpa [infos, Forest.length_roots] using same
    have less : Friend.effort friends (fun j => w.root.pending + 0 + w.root.pc.still j) <
        Friend.effort w.friends _ := below.effort_step good.good stepped
    unfold World.effort
    simp only [Friend.effort, length]
    omega
  | next place => cases transition

/-- Not_Tako has something to do before he waits. -/
theorem World.Good.busy (good : w.Good lines) (works : ¬ w.Finished) : w.root.Busy := by
  obtain ⟨heard, ahead, does, _⟩ := good.given
  unfold Proc.Busy
  split
  · rename_i first
    exact absurd first good.obeys.begun
  · rename_i waits
    rw [does.lines_eq]
    cases ahead with
    | nil => exact absurd ⟨waits, does.stdin⟩ works
    | cons line later => exact Nat.succ_le_succ (Nat.zero_le _)
  · trivial

/-- Before that, some process can go on or has filled its buffer. -/
theorem World.Good.possible (good : w.Good lines) (works : ¬ w.Finished) :
    w.Overfull ∨ ∃ place after, w.step (.run place 1) = some after := by
  obtain ⟨heard, ahead, does, below, commands, handed⟩ := good.given
  have ahead' : ∀ line ∈ ahead, IsCommand line := fun line member =>
    commands line (List.mem_append_right _ member)
  rcases (good.busy works).possible does ahead' good.tends
      fun k f here busy => below.possible handed good.good here busy
    with full | full | ⟨⟨root, friends⟩, goes⟩ | ⟨place, after, goes⟩
  · exact .inl (.inl full)
  · exact .inl (.inr full)
  · exact .inr ⟨.here, { root, friends }, by simp [World.step, goes]⟩
  · exact .inr ⟨.child place, { w with friends := after }, by simp [World.step, goes]⟩

/-- A schedule is no longer than the steps that are left. -/
theorem World.Good.schedule_le {schedule : List (Place × Nat)} (good : w.Good lines)
    (ran : machine.exec (fun _ _ => true) w (runs schedule) = some w') :
    schedule.length + w'.effort ≤ w.effort := by
  induction schedule generalizing w with
  | nil =>
    cases ran
    exact Nat.le_of_eq (Nat.zero_add _)
  | cons turn schedule ih =>
    obtain ⟨after, stepped, rest⟩ := Option.bind_eq_some_iff.mp ran
    have less := good.effort_run stepped
    have behind := ih (good.run stepped) rest
    rw [List.length_cons]
    omega

theorem reach_good (reached : spoken.Reach (fun state => wellFormed state.1) (w, lines)) :
    w.Good lines := by
  refine spoken_invariant World.Good good_start ?_ ?_ reached
  · intro w w' lines parent child value _ good formed transition
    exact good.meet formed transition
  · intro w w' lines place count _ good transition
    exact good.run transition

end

end NTUSP.Friend
