import NTUSP.Friend.Owing

/-!
# How long the friends can be busy

Until the user gives another line, the processes can make so many steps and no more. A process can
hand a line to each of its friends, and meet one friend for each line that is still to come. That
friend in turn can be handed the lines that come after, so that the bound grows with the number of
lines as the powers of two do.
-/

namespace NTUSP.Friend

open NTUSP.Library

/-- The lines before a process that it will attend to. -/
def Proc.pending (p : Proc) : Nat := p.lines - if p.pc = .start then 1 else 0

/-- Whether friend number `j` can still be handed the line that its parent attends to. -/
def Pc.still : Pc → Nat → Nat
  | .ask _ k _, j => if j < k then 0 else 1
  | .await _ k _, j | .relay _ k _, j => if j < k + 1 then 0 else 1
  | _, _ => 0

/-- The friends that a process meets in a moment. -/
def Pc.births : Pc → Nat
  | .fork _ => 1
  | _ => 0

/-- The steps that are left of what a process with `n` friends does. -/
def Pc.current (n : Nat) : Pc → Nat
  | .start => 1
  | .loop => 0
  | .ask _ k _ => 3 * (n - k) + 1
  | .await _ k _ => 3 * (n - (k + 1)) + 3
  | .relay _ k _ => 3 * (n - (k + 1)) + 2
  | .fork _ => 3
  | .tell _ => 2
  | .report _ => 1

/-- The steps of a process for `r` lines, when it has at most `n` friends behind them. -/
def chores (n r : Nat) : Nat := r * (3 * n + 5)

/-- The steps of the friends that are met in `r` lines, and of theirs. -/
def reserve : Nat → Nat
  | 0 => 0
  | r + 1 => reserve r + (1 + chores r r + reserve r)

/-- The steps of a process with `n` friends for `r` lines more, with those of the friends that it
can still meet. -/
def Pc.effort (pc : Pc) (r n : Nat) : Nat :=
  pc.current n + chores (n + pc.births + r) r + reserve (r + pc.births)

/-- The steps of a forest. Tree number `j` can be handed `more j` lines. -/
def effort : Forest Proc → (Nat → Nat) → Nat
  | .nil, _ => 0
  | .node p friends others, more =>
      p.pc.effort (p.pending + more 0) friends.length +
        effort friends (fun j => p.pending + more 0 + p.pc.still j) +
          effort others fun j => more (j + 1)

/-- The steps of Not_Tako and his friends. -/
def World.effort (w : World) : Nat := Friend.effort (.node w.root w.friends .nil) fun _ => 0

section

variable {p p' : Proc} {friends friends' forest : Forest Proc} {more more' : Nat → Nat}
  {heard ahead : List (List Char)} {call : Call} {k n n' r r' count : Nat}

theorem chores_mono (friends : n ≤ n') (lines : r ≤ r') : chores n r ≤ chores n' r' :=
  Nat.mul_le_mul lines (by omega)

theorem chores_succ (n r : Nat) : chores n (r + 1) = chores n r + (3 * n + 5) := Nat.succ_mul _ _

theorem reserve_mono (lines : r ≤ r') : reserve r ≤ reserve r' := by
  induction lines with
  | refl => exact Nat.le_refl _
  | step _ ih =>
    refine ih.trans ?_
    rw [reserve]
    omega

theorem Pc.effort_mono (pc : Pc) (n : Nat) (lines : r ≤ r') : pc.effort r n ≤ pc.effort r' n := by
  have own : chores (n + pc.births + r) r ≤ chores (n + pc.births + r') r' :=
    chores_mono (by omega) lines
  have theirs : reserve (r + pc.births) ≤ reserve (r' + pc.births) := reserve_mono (by omega)
  unfold Pc.effort
  omega

theorem effort_mono (forest : Forest Proc) (le : ∀ j, more j ≤ more' j) :
    effort forest more ≤ effort forest more' := by
  induction forest generalizing more more' with
  | nil => exact Nat.le_refl _
  | node p friends others below beside =>
    have lines : p.pending + more 0 ≤ p.pending + more' 0 := Nat.add_le_add_left (le 0) _
    have own := p.pc.effort_mono friends.length lines
    have under : effort friends (fun j => p.pending + more 0 + p.pc.still j) ≤
        effort friends fun j => p.pending + more' 0 + p.pc.still j :=
      below fun j => Nat.add_le_add_right lines _
    have next : effort others (fun j => more (j + 1)) ≤ effort others fun j => more' (j + 1) :=
      beside fun j => le (j + 1)
    unfold effort
    omega

/-- What a process prints is no matter. -/
theorem effort_modify {f : Proc → Proc}
    (keeps : ∀ p, (f p).stdin = p.stdin ∧ (f p).pc = p.pc) (forest : Forest Proc) (k : Nat) :
    effort (forest.modify f k) more = effort forest more := by
  induction forest generalizing k more with
  | nil => rfl
  | node p friends others _ ih =>
    cases k with
    | zero =>
      obtain ⟨stdin, pc⟩ := keeps p
      have pending : (f p).pending = p.pending := by
        unfold Proc.pending Proc.lines
        rw [stdin, pc]
      simp only [Forest.modify, effort, pending, pc]
    | succ k => simp only [Forest.modify, effort, ih]

/-- A line that is handed to a tree is one less that can be handed to it. -/
theorem effort_hand (last : call.Last heard) (plain : ∀ line ∈ heard, '\n' ∉ line)
    (forest : Forest Proc) (one : more' k + 1 ≤ more k) (le : ∀ j, more' j ≤ more j) :
    effort (forest.modify (fun f => f.hand call.toChildCmd) k) more' ≤ effort forest more := by
  induction forest generalizing k more more' with
  | nil => exact Nat.le_refl _
  | node p friends others _ ih =>
    cases k with
    | zero =>
      have pending : (p.hand call.toChildCmd).pending + more' 0 ≤ p.pending + more 0 := by
        have lines := lines_hand last plain p
        unfold Proc.pending
        change _ - (if p.pc = .start then 1 else 0) + more' 0 ≤ _
        rw [lines]
        omega
      have own := p.pc.effort_mono friends.length pending
      have under := effort_mono friends (fun j => Nat.add_le_add_right pending (p.pc.still j))
      have next := effort_mono others (fun j => le (j + 1))
      simp only [Forest.modify, effort]
      exact Nat.add_le_add (Nat.add_le_add own under) next
    | succ k =>
      have next : effort (others.modify (fun f => f.hand call.toChildCmd) k)
          (fun j => more' (j + 1)) ≤ effort others fun j => more (j + 1) :=
        ih one fun j => le (j + 1)
      have own := p.pc.effort_mono friends.length (Nat.add_le_add_left (le 0) p.pending)
      have under := effort_mono friends (fun j =>
        Nat.add_le_add_right (Nat.add_le_add_left (le 0) p.pending) (p.pc.still j))
      simp only [Forest.modify, effort]
      exact Nat.add_le_add (Nat.add_le_add own under) next

/-- A new friend makes the steps that its parent has had in reserve. -/
theorem effort_snoc (forest : Forest Proc) (name : List Char) :
    effort (forest.snoc (.spawn name)) more =
      effort forest more + (1 + chores (more forest.length) (more forest.length) +
        reserve (more forest.length)) := by
  induction forest generalizing more with
  | nil =>
    have none : (Proc.spawn name).pending = 0 := rfl
    have born : (Proc.spawn name).pc = .start := rfl
    simp [Forest.snoc, effort, none, born, Pc.effort, Pc.current, Pc.births, Forest.length]
  | node p friends others _ ih =>
    simp only [Forest.snoc, effort, ih, Forest.length]
    omega

/-- The line that a new friend is born with is not one for it. -/
theorem effort_newborn (last : call.Last heard) (plain : ∀ line ∈ heard, '\n' ∉ line)
    {before : List Proc} {name : List Char} (newborn : forest.roots = before ++ [.spawn name]) :
    effort (forest.modify (fun f => f.hand call.toChildCmd) (forest.length - 1)) more =
      effort forest more := by
  induction forest generalizing before more with
  | nil => rfl
  | node p friends others _ ih =>
    cases others with
    | nil =>
      cases before with
      | nil =>
        cases newborn
        have lines := lines_hand last plain (.spawn name)
        have told : ((Proc.spawn name).hand call.toChildCmd).pending = 0 := by
          unfold Proc.pending
          rw [lines]
          rfl
        have none : (Proc.spawn name).pending = 0 := rfl
        change effort (.node ((Proc.spawn name).hand call.toChildCmd) friends .nil) more = _
        simp only [effort, told, none]
        rfl
      | cons q before => simp [Forest.roots] at newborn
    | node q under rest =>
      cases before with
      | nil => simp [Forest.roots] at newborn
      | cons r before =>
        have behind := (List.cons.inj newborn).2
        have next : effort _ (fun j => more (j + 1)) = effort _ _ := ih behind
        exact congrArg (p.pc.effort (p.pending + more 0) friends.length +
          effort friends (fun j => p.pending + more 0 + p.pc.still j) + ·) next

/-- A line that is read is one line less. -/
theorem Proc.Obeys.lines_read (obeys : p.Obeys heard ahead friends) {line rest : List Char}
    (read : readLine p.stdin = some (line, rest)) : p.lines = rest.count '\n' + 1 := by
  obtain ⟨later, rfl, rfl⟩ := obeys.read read
  rw [obeys.lines_eq, count_written fun line member => obeys.plain line (by simp [member])]
  rfl

theorem pending_of_begun (begun : p.pc ≠ .start) : p.pending = p.lines := by
  unfold Proc.pending
  rw [if_neg begun]
  rfl

/-- A line is enough for what a process does about it, and for a friend that it meets. -/
theorem effort_take (r n : Nat) (call : Call) :
    Pc.loop.effort r n < Pc.loop.effort (r + 1) n ∧
      (Pc.ask call 0 blank).effort r n < Pc.loop.effort (r + 1) n ∧
        (Pc.fork call).effort r n < Pc.loop.effort (r + 1) n := by
  have line := chores_succ (n + (r + 1)) r
  have before : chores (n + r) r ≤ chores (n + (r + 1)) r := chores_mono (by omega) (Nat.le_refl r)
  have during : chores (n + 1 + r) r = chores (n + (r + 1)) r := by
    rw [Nat.add_assoc, Nat.add_comm 1 r]
  have kept : reserve r ≤ reserve (r + 1) := reserve_mono (Nat.le_succ r)
  simp only [Pc.effort, Pc.current, Pc.births, Nat.add_zero]
  omega

/-- Every step of a process is one step less for it and the friends below it. -/
theorem Proc.Obeys.effort_step (obeys : p.Obeys heard ahead friends) (tends : p.Tends friends)
    (transition : p.step friends count = some (p', friends')) (m : Nat) :
    p'.pc.effort (p'.pending + m) friends'.length +
        effort friends' (fun j => p'.pending + m + p'.pc.still j) <
      p.pc.effort (p.pending + m) friends.length +
        effort friends fun j => p.pending + m + p.pc.still j := by
  have plain : ∀ line ∈ heard, '\n' ∉ line := fun line member =>
    obeys.plain line (List.mem_append_left _ member)
  cases step_cases transition with
  | @start line rest _ _ childName first read =>
    have lines := obeys.lines_read read
    have before : p.pending = rest.count '\n' := by
      unfold Proc.pending
      rw [lines, first]
      rfl
    have after : Proc.pending
        { p with name := friendName p.info childName, pc := .loop, stdin := rest } =
          rest.count '\n' := pending_of_begun nofun
    rw [after, before, first]
    simp only [Pc.effort, Pc.current, Pc.births, Pc.still]
    omega
  | @take line rest _ waits read takes =>
    have before : p.pending = rest.count '\n' + 1 :=
      (pending_of_begun (by rw [waits]; nofun)).trans (obeys.lines_read read)
    have one : p.pending + m = rest.count '\n' + m + 1 := by omega
    rw [one, waits]
    have less : effort friends (fun _ => rest.count '\n' + m) ≤
        effort friends fun j => rest.count '\n' + m + 1 + Pc.loop.still j :=
      effort_mono friends fun _ => Nat.le_succ _
    cases takes with
    | empty =>
      have after : Proc.pending { p with stdin := rest } = rest.count '\n' :=
        pending_of_begun (by change p.pc ≠ _; rw [waits]; nofun)
      rw [after]
      change p.pc.effort _ _ + effort friends (fun j => _ + p.pc.still j) < _
      rw [waits]
      exact Nat.add_lt_add_of_lt_of_le (effort_take _ _ ⟨[], [], []⟩).1 less
    | @pass call =>
      have after : Proc.pending { p with pc := .ask call 0 blank, stdin := rest } =
          rest.count '\n' := pending_of_begun nofun
      rw [after]
      exact Nat.add_lt_add_of_lt_of_le (effort_take _ _ call).2.1 (Nat.le_refl _)
    | @act call =>
      have after : Proc.pending { p with pc := .fork call, stdin := rest } = rest.count '\n' :=
        pending_of_begun nofun
      rw [after]
      exact Nat.add_lt_add_of_lt_of_le (effort_take _ _ call).2.2 less
  | @hand call k middle asks inside =>
    have last := obeys.current call (by rw [asks]; rfl)
    have before : p.pending = p.lines := pending_of_begun (by rw [asks]; nofun)
    have after : Proc.pending { p with pc := .await call k middle } = p.lines :=
      pending_of_begun nofun
    have under : effort (friends.modify (fun f => f.hand call.toChildCmd) k)
        (fun j => p.lines + m + (Pc.await call k middle).still j) ≤
          effort friends fun j => p.lines + m + (Pc.ask call k middle).still j := by
      refine effort_hand last plain friends ?_ fun j => ?_
      · simp [Pc.still]
      · simp only [Pc.still]
        split <;> split <;> omega
    rw [after, before, asks, Forest.length_modify]
    simp only [Pc.effort, Pc.current, Pc.births]
    omega
  | @refuse call k middle text asks =>
    have before : p.pending = p.lines := pending_of_begun (by rw [asks]; nofun)
    have after : Proc.pending { p with pc := .loop, stdout := p.stdout ++ text } = p.lines :=
      pending_of_begun nofun
    have under : effort friends (fun j => p.lines + m + Pc.loop.still j) ≤
        effort friends fun j => p.lines + m + (Pc.ask call k middle).still j :=
      effort_mono friends fun j => Nat.le_add_right _ _
    rw [after, before, asks]
    simp only [Pc.effort, Pc.current, Pc.births]
    omega
  | @read call k middle f bytes awaits =>
    have before : p.pending = p.lines := pending_of_begun (by rw [awaits]; nofun)
    have after : Proc.pending { p with pc := .relay call k (bytes ++ middle.drop bytes.length) } =
        p.lines := pending_of_begun nofun
    have under : effort _ (fun j => p.lines + m + (Pc.await call k middle).still j) = effort _ _ :=
      effort_modify (f := fun f => { f with stdout := f.stdout.drop bytes.length })
        (fun _ => ⟨rfl, rfl⟩) friends k
    rw [after, before, awaits, Forest.length_modify]
    simp only [Pc.effort, Pc.current, Pc.births, Pc.still] at under ⊢
    omega
  | @goOn call k middle text relays =>
    have before : p.pending = p.lines := pending_of_begun (by rw [relays]; nofun)
    have after : Proc.pending { p with pc := .ask call (k + 1) middle, stdout := p.stdout ++ text } =
        p.lines := pending_of_begun nofun
    rw [after, before, relays]
    simp only [Pc.effort, Pc.current, Pc.births, Pc.still]
    omega
  | @done call k middle text relays =>
    have before : p.pending = p.lines := pending_of_begun (by rw [relays]; nofun)
    have after : Proc.pending { p with pc := .loop, stdout := p.stdout ++ text } = p.lines :=
      pending_of_begun nofun
    have under : effort friends (fun j => p.lines + m + Pc.loop.still j) ≤
        effort friends fun j => p.lines + m + (Pc.relay call k middle).still j :=
      effort_mono friends fun j => Nat.le_add_right _ _
    rw [after, before, relays]
    simp only [Pc.effort, Pc.current, Pc.births]
    omega
  | @fork call forks =>
    have before : p.pending = p.lines := pending_of_begun (by rw [forks]; nofun)
    have after : Proc.pending { p with pc := .tell call } = p.lines := pending_of_begun nofun
    have born : effort _ (fun _ => p.lines + m) = _ := effort_snoc friends call.childName
    have room : friends.length + 1 + 0 + (p.lines + m) = friends.length + 1 + (p.lines + m) := by
      omega
    rw [after, before, forks, Forest.length_snoc]
    simp only [Pc.effort, Pc.current, Pc.births, Pc.still, Nat.add_zero, reserve] at born ⊢
    omega
  | @tell call tells =>
    have last := obeys.current call (by rw [tells]; rfl)
    obtain ⟨_, _, newborn, _⟩ := tends.newborn call tells
    have before : p.pending = p.lines := pending_of_begun (by rw [tells]; nofun)
    have after : Proc.pending { p with pc := .report call } = p.lines := pending_of_begun nofun
    have under : effort _ (fun _ => p.lines + m) = effort _ _ := effort_newborn last plain newborn
    rw [after, before, tells, Forest.length_modify]
    simp only [Pc.effort, Pc.current, Pc.births, Pc.still, Nat.add_zero] at under ⊢
    omega
  | @report call text reports =>
    have before : p.pending = p.lines := pending_of_begun (by rw [reports]; nofun)
    have after : Proc.pending { p with pc := .loop, stdout := p.stdout ++ text } = p.lines :=
      pending_of_begun nofun
    rw [after, before, reports]
    simp only [Pc.effort, Pc.current, Pc.births, Pc.still]
    omega

/-- Every step among friends is one step less. -/
theorem Heard.effort_step {given : Nat → List (List Char)} {place : Place} {after : Forest Proc}
    (hears : Heard given forest) (good : forest.All Proc.Good)
    (transition : stepAt count forest place = some after) : effort after more < effort forest more := by
  induction hears generalizing place after more with
  | nil => cases place <;> cases transition
  | @node given p friends others heard ahead among obeys below beside ihBelow ihBeside =>
    obtain ⟨own, under, next⟩ := good
    cases stepAt_cases transition with
    | here stepped =>
      have less := obeys.effort_step own.2 stepped (more 0)
      simp only [effort]
      omega
    | @child inner friends' stepped =>
      have length : friends'.length = friends.length := by
        have same := congrArg List.length (below.step stepped).1
        simpa [infos, Forest.length_roots] using same
      have less : effort friends' (fun j => p.pending + more 0 + p.pc.still j) <
          effort friends _ := ihBelow under stepped
      simp only [effort, length]
      omega
    | @next inner others' stepped =>
      have less : effort others' (fun j => more (j + 1)) < effort others _ := ihBeside next stepped
      simp only [effort]
      omega

end
end NTUSP.Friend
