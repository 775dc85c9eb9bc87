import NTUSP.Friend.Answers

/-!
# What Not_Tako says

Not_Tako says one thing about each command, in the order of the commands, and it is about the friend
that the command names. A command to meet a friend by himself he always reports as such. Only whom
he names as the go-between, and whether he finds one, depends on the replies.
-/

namespace NTUSP.Friend

open NTUSP.Library CString

/-- What Not_Tako can say about a command. -/
inductive Replied (line : List Char) : List Char → Prop where
  | direct {child} (parsed : parse line = some ("Meet".toList, rootName, child)) :
      Replied line (printDirectMeet child)
  | indirect {parent child} (through : List Char)
      (parsed : parse line = some ("Meet".toList, parent, child)) (other : parent ≠ rootName) :
      Replied line (printIndirectMeet through child)
  | fail {parent child} (parsed : parse line = some ("Meet".toList, parent, child))
      (other : parent ≠ rootName) : Replied line (printFailMeet parent child)

/-- The process meets a friend by itself. -/
def Pc.acts : Pc → Bool
  | .fork _ | .tell _ | .report _ => true
  | _ => false

/-- The lines that have been answered, of those that have been heard. -/
def Pc.answered (heard : List (List Char)) (pc : Pc) : List (List Char) :=
  if pc.call? = none then heard else heard.dropLast

/-- Not_Tako has said these things about the lines he has heard. -/
structure Proc.Answers (heard replies : List (List Char)) (p : Proc) : Prop where
  printed : p.stdout = replies.flatten
  each : List.Forall₂ Replied (p.pc.answered heard) replies
  own : ∀ call, p.pc.call? = some call → (call.parent = rootName ↔ p.pc.acts = true)

section

variable {p p' : Proc} {friends friends' : Forest Proc}
  {heard ahead heard' ahead' replies : List (List Char)} {line text : List Char} {call : Call}
  {count : Nat}

/-- Where no line is taken, no other has been heard. -/
theorem heard_eq (obeys : p.Obeys heard ahead friends) (obeys' : p'.Obeys heard' ahead' friends')
    (same : heard' ++ ahead' = heard ++ ahead) (lines : p'.lines = p.lines) : heard' = heard := by
  rw [obeys.lines_eq, obeys'.lines_eq] at lines
  exact (List.append_inj' same lines).1

theorem heard_take {later : List (List Char)} (obeys' : p'.Obeys heard' ahead' friends')
    (same : heard' ++ ahead' = heard ++ line :: later) (lines : p'.lines = later.length) :
    heard' = heard ++ [line] := by
  rw [obeys'.lines_eq] at lines
  rw [List.append_cons] at same
  exact (List.append_inj' same lines).1

/-- The line that is attended to is not answered. -/
theorem Pc.answered_concat {pc : Pc} (attends : pc.call? = some call) :
    pc.answered (heard ++ [line]) = heard := by
  unfold Pc.answered
  rw [attends, if_neg (Option.some_ne_none call), List.dropLast_concat]

/-- While a command is attended to without a word, nothing changes. -/
theorem Proc.Answers.goOn (answers : p.Answers heard replies) {pc : Pc} {stdout : List Char}
    (attends : pc.call? = p.pc.call?) (acts : pc.acts = p.pc.acts) (quiet : stdout = p.stdout) :
    Proc.Answers heard replies { p with pc := pc, stdout := stdout } where
  printed := quiet.trans answers.printed
  each := by
    have same : pc.answered heard = p.pc.answered heard := by
      unfold Pc.answered
      rw [attends]
    rw [same]
    exact answers.each
  own := by
    rw [attends, acts]
    exact answers.own

/-- The line that is taken is the one that is not answered. -/
theorem Proc.Answers.take (answers : p.Answers heard replies) (waits : p.pc = .loop)
    (quiet : p'.stdout = p.stdout) (attends : p'.pc.call? = some call)
    (own : call.parent = rootName ↔ p'.pc.acts = true) :
    p'.Answers (heard ++ [line]) replies where
  printed := quiet.trans answers.printed
  each := by
    have each := answers.each
    rw [waits] at each
    rw [Pc.answered_concat attends]
    exact each
  own := by
    intro current attended
    rw [attends] at attended
    cases attended
    exact own

/-- A command that Not_Tako does not act on is for another. -/
theorem Proc.Answers.other (answers : p.Answers heard replies) (attends : p.pc.call? = some call)
    (passes : p.pc.acts = false) : call.parent ≠ rootName := by
  intro own
  have acts := (answers.own call attends).mp own
  rw [passes] at acts
  cases acts

/-- A command is done with when Not_Tako has spoken. -/
theorem Proc.Answers.speak (answers : p.Answers heard replies) (last : call.Last heard)
    (attends : p.pc.call? = some call)
    (replied : ∀ line, parse line = some ("Meet".toList, call.parent, call.childName) →
      Replied line text) :
    Proc.Answers heard (replies ++ [text]) { p with pc := .loop, stdout := p.stdout ++ text } where
  printed := by
    rw [answers.printed, List.flatten_append, List.flatten_singleton]
  each := by
    obtain ⟨earlier, line, rfl, _, parsed⟩ := last
    have each := answers.each
    rw [Pc.answered_concat attends] at each
    exact List.rel_append each (.cons (replied line parsed) .nil)
  own := nofun

/-- In one step Not_Tako says one thing at most. -/
theorem Proc.Answers.step (answers : p.Answers heard replies) (root : p.name = rootName)
    (begun : p.pc ≠ .start) (obeys : p.Obeys heard ahead friends)
    (commands : ∀ line ∈ ahead, line ≠ []) (obeys' : p'.Obeys heard' ahead' friends')
    (same : heard' ++ ahead' = heard ++ ahead)
    (transition : p.step friends count = some (p', friends')) :
    p'.Answers heard' replies ∨ ∃ text, p'.Answers heard' (replies ++ [text]) := by
  have isRoot : p.isNotTako = true := decide_eq_true root
  cases step_cases transition with
  | start first => exact absurd first begun
  | take waits read takes =>
    obtain ⟨later, rfl, rfl⟩ := obeys.read read
    have lines : (written later).count '\n' = later.length :=
      count_written fun line member => obeys.plain line (by simp [member])
    left
    cases takes with
    | empty blank => exact absurd blank (commands _ List.mem_cons_self)
    | pass _ _ other =>
      obtain rfl := heard_take obeys' same lines
      rw [root] at other
      exact answers.take waits rfl rfl (iff_of_false other Bool.false_ne_true)
    | act _ _ own =>
      obtain rfl := heard_take obeys' same lines
      exact answers.take waits rfl rfl (iff_of_true (own.trans root) rfl)
  | hand asks =>
    obtain rfl := heard_eq obeys obeys' same rfl
    left
    exact answers.goOn (by rw [asks]; rfl) (by rw [asks]; rfl) rfl
  | @refuse call k middle text asks printed =>
    obtain rfl := heard_eq obeys obeys' same rfl
    have attends : p.pc.call? = some call := by rw [asks]; rfl
    have other : call.parent ≠ rootName := answers.other attends (by rw [asks]; rfl)
    refine .inr ⟨text, answers.speak (obeys.current call attends) attends fun line parsed => ?_⟩
    rw [printed, isRoot, if_pos rfl]
    exact .fail parsed other
  | read awaits =>
    obtain rfl := heard_eq obeys obeys' same rfl
    left
    exact answers.goOn (by rw [awaits]; rfl) (by rw [awaits]; rfl) rfl
  | goOn relays printed =>
    obtain rfl := heard_eq obeys obeys' same rfl
    left
    refine answers.goOn (by rw [relays]; rfl) (by rw [relays]; rfl) ?_
    rw [printed, isRoot, if_pos rfl, List.append_nil]
  | @done call k middle text relays printed =>
    obtain rfl := heard_eq obeys obeys' same rfl
    have attends : p.pc.call? = some call := by rw [relays]; rfl
    have other : call.parent ≠ rootName := answers.other attends (by rw [relays]; rfl)
    refine .inr ⟨text, answers.speak (obeys.current call attends) attends fun line parsed => ?_⟩
    rw [printed, isRoot, if_pos rfl]
    exact .indirect _ parsed other
  | fork forks =>
    obtain rfl := heard_eq obeys obeys' same rfl
    left
    exact answers.goOn (by rw [forks]; rfl) (by rw [forks]; rfl) rfl
  | tell tells =>
    obtain rfl := heard_eq obeys obeys' same rfl
    left
    exact answers.goOn (by rw [tells]; rfl) (by rw [tells]; rfl) rfl
  | @report call text reports printed =>
    obtain rfl := heard_eq obeys obeys' same rfl
    have attends : p.pc.call? = some call := by rw [reports]; rfl
    have own : call.parent = rootName := (answers.own call attends).mpr (by rw [reports]; rfl)
    refine .inr ⟨text, answers.speak (obeys.current call attends) attends fun line parsed => ?_⟩
    rw [printed, isRoot, if_pos rfl]
    rw [own] at parsed
    exact .direct parsed

end

/-- What Not_Tako has said, when the user has given these lines. -/
def World.Answered (lines replies : List (List Char)) (w : World) : Prop :=
  ∃ heard ahead, heard ++ ahead = lines ∧ w.root.Obeys heard ahead w.friends ∧
    w.root.Answers heard replies

section

variable {w w' : World} {lines replies : List (List Char)} {place : Place} {count : Nat}

/-- All lines are answered but the one that is attended to and those not taken. -/
theorem World.Answered.take (answered : w.Answered lines replies) :
    List.Forall₂ Replied (lines.take replies.length) replies := by
  obtain ⟨heard, ahead, rfl, _, answers⟩ := answered
  have each := answers.each
  have front : w.root.pc.answered heard <+: heard ++ ahead := by
    unfold Pc.answered
    split
    · exact List.prefix_append heard ahead
    · exact heard.dropLast_prefix.trans (List.prefix_append heard ahead)
  rw [← each.length_eq, ← List.prefix_iff_eq_take.mp front]
  exact each

theorem World.Answered.finished (answered : w.Answered lines replies) (waits : w.Finished) :
    replies.length = lines.length := by
  obtain ⟨heard, ahead, rfl, does, answers⟩ := answered
  obtain ⟨idle, empty⟩ := waits
  have nothing : ahead = [] := by
    have none := does.lines_eq
    unfold Proc.lines at none
    rw [empty] at none
    exact List.length_eq_zero_iff.mp none.symm
  have each := answers.each
  rw [idle] at each
  rw [nothing, List.append_nil]
  exact each.length_eq.symm

theorem World.Answered.run (answered : w.Answered lines replies) (good : w.Good lines)
    (transition : w.step (.run place count) = some w') :
    w'.Answered lines replies ∨ ∃ text, w'.Answered lines (replies ++ [text]) := by
  obtain ⟨heard, ahead, all, does, answers⟩ := answered
  obtain ⟨heard', ahead', all', does', _⟩ := (good.run transition).obeys.lines
  cases place with
  | here =>
    have commands : ∀ line ∈ ahead, line ≠ [] := fun line member =>
      (good.commands line (by rw [← all]; exact List.mem_append_right _ member)).ne_nil
    obtain ⟨⟨root, friends⟩, stepped, same⟩ := Option.map_eq_some_iff.mp transition
    cases same
    have next := answers.step good.obeys.named good.obeys.begun does commands does'
      (all'.trans all.symm) stepped
    exact next.imp (fun answers => ⟨heard', ahead', all', does', answers⟩) fun ⟨text, answers⟩ =>
      ⟨text, heard', ahead', all', does', answers⟩
  | child place =>
    obtain ⟨friends, stepped, same⟩ := Option.map_eq_some_iff.mp transition
    cases same
    have same := heard_eq does does' (all'.trans all.symm) rfl
    subst same
    exact .inl ⟨heard', ahead', all', does', answers⟩
  | next place => cases transition

theorem World.Answered.meet (answered : w.Answered lines replies)
    {parent child value : List Char} (formed : WellFormed parent child value)
    (transition : w.step (.meet parent child value) = some w') :
    w'.Answered (lines ++ [meetLine parent child value]) replies := by
  obtain ⟨heard, ahead, rfl, does, answers⟩ := answered
  unfold World.step at transition
  dsimp only at transition
  split at transition
  · cases transition
    have more := List.append_assoc heard ahead [meetLine parent child value]
    exact ⟨heard, ahead ++ [_], more.symm, does.hand (meetLine_line formed),
      answers.printed, answers.each, answers.own⟩
  · cases transition

/-- A command is given when all others are answered. -/
theorem finished_of_meet {parent child value : List Char}
    (transition : w.step (.meet parent child value) = some w') : w.Finished := by
  by_contra works
  have blocked : w.step (.meet parent child value) = none := if_neg works
  rw [blocked] at transition
  cases transition

end

/-- In every run Not_Tako says one thing about each command, in the order of the commands, and it
is about the friend that the command names. Only the last command can be unanswered, and none is
when he waits. -/
theorem replies_in_order {w : World} {lines : List (List Char)}
    (reached : spoken.Reach (fun state => wellFormed state.1) (w, lines)) :
    ∃ replies, w.root.stdout = replies.flatten ∧
      List.Forall₂ Replied (lines.take replies.length) replies ∧
        lines.length ≤ replies.length + 1 ∧
          (w.Finished → replies.length = lines.length) := by
  have said : ∃ replies, w.Answered lines replies ∧ lines.length ≤ replies.length + 1 := by
    refine spoken_invariant (fun lines w =>
      ∃ replies, w.Answered lines replies ∧ lines.length ≤ replies.length + 1) ?_ ?_ ?_ reached
    · refine ⟨[], ⟨[], [], rfl, ?_, rfl, .nil, nofun⟩, Nat.zero_le _⟩
      exact ⟨rfl, nofun, nofun, nofun, nofun, rfl⟩
    · rintro w w' lines parent child value _ ⟨replies, answered, _⟩ formed transition
      have all := answered.finished (finished_of_meet transition)
      refine ⟨replies, answered.meet formed transition, ?_⟩
      rw [List.length_append, List.length_singleton, all]
    · rintro w w' lines place count prior ⟨replies, answered, last⟩ transition
      rcases answered.run (reach_good prior) transition with answered | ⟨text, answered⟩
      · exact ⟨replies, answered, last⟩
      · refine ⟨replies ++ [text], answered, ?_⟩
        rw [List.length_append]
        omega
  obtain ⟨replies, answered, last⟩ := said
  obtain ⟨_, _, _, _, answers⟩ := id answered
  exact ⟨replies, answers.printed, answered.take, last, answered.finished⟩

/-- The friend that the third command asks for is a stranger, but Not_Tako says whom he has met
through whom. -/
theorem replies_in_order_mixed_up :
    ∃ w, spoken.Reach (fun state => wellFormed state.1)
        (w, [meetLine rootName ['A', 'B'] ['1'], meetLine ['A', 'B'] ['C'] ['1'],
          meetLine ['X'] ['D'] ['1']]) ∧
      w.root.stdout = printDirectMeet ['A', 'B'] ++ printIndirectMeet ['A'] ['C'] ++
        printIndirectMeet ['B'] ['D'] ∧
      ∃ replies : List (List Char), w.root.stdout = replies.flatten ∧ replies.length = 3 := by
  have valid : spoken.Initial (.start, []) := ⟨rfl, rfl⟩
  have ran : (spoken.exec (fun state action => wellFormed state.1 action) (.start, []) mixedUp).map
      (fun state => (state.2, decide state.1.Finished, state.1.root.stdout)) =
        some ([meetLine rootName ['A', 'B'] ['1'], meetLine ['A', 'B'] ['C'] ['1'],
          meetLine ['X'] ['D'] ['1']], true, printDirectMeet ['A', 'B'] ++
            printIndirectMeet ['A'] ['C'] ++ printIndirectMeet ['B'] ['D']) := by
    decide +kernel
  obtain ⟨⟨w, lines⟩, reached, seen⟩ := Machine.Reach.of_ran valid ran
  obtain ⟨given, seen⟩ := Prod.mk.inj seen
  obtain ⟨finished, printed⟩ := Prod.mk.inj seen
  change lines = _ at given
  subst given
  obtain ⟨replies, said, _, _, all⟩ := replies_in_order reached
  exact ⟨w, reached, printed, replies, said, all (of_decide_eq_true finished)⟩

end NTUSP.Friend
