import NTUSP.Friend.Heard
import Mathlib.Data.List.Forall2

/-!
# The replies that friends owe

A friend that is handed a line replies to it, perhaps more than once: it says its name, passes on
what its friends say, or says `-`. So the friend that a process waits for has a reply in its pipe,
or is on the way to one, however many replies to earlier lines have been left behind. What a
process waits for can only fail to come where a buffer has been filled to the last byte.
-/

namespace NTUSP.Friend

open NTUSP.Library CString

/-- The lines in the pipe of a process. -/
def Proc.lines (p : Proc) : Nat := p.stdin.count '\n'

/-- The process attends to a command or has one before it. A new friend does not attend to its
first line. -/
def Proc.Busy (p : Proc) : Prop :=
  match p.pc with
  | .start => 2 ≤ p.lines
  | .loop => 1 ≤ p.lines
  | _ => True

/-- A reply of the process is in its pipe, or will be. -/
def Proc.Owes (p : Proc) : Prop := p.stdout ≠ [] ∨ p.Busy

/-- The process is about to print a buffer without an end. Not_Tako does not print a refusal. -/
def Proc.Overfull (p : Proc) : Prop :=
  ∃ call k middle, p.pc = .relay call k middle ∧ '\x00' ∉ middle ∧
    ¬ (p.isNotTako = true ∧ middle.head? = some '-')

/-- Each new friend has been told the line it is born with. -/
def Told (friends : List Proc) : Prop := ∀ f ∈ friends, f.pc = .start → 1 ≤ f.lines

/-- What a process knows of its friends. -/
structure Proc.Tends (p : Proc) (friends : Forest Proc) : Prop where
  owed : ∀ call k middle, p.pc = .await call k middle →
    ∃ f, friends.root? k = some f ∧ f.Owes
  told : (∀ call, p.pc ≠ .tell call) → Told friends.roots
  newborn : ∀ call, p.pc = .tell call →
    ∃ before name, friends.roots = before ++ [.spawn name] ∧ Told before

/-- A friend has a name, and replies with names. -/
structure Proc.Friendly (p : Proc) : Prop where
  named : IsName p.info
  same : p.pc ≠ .start → p.name = p.info
  clean : '\x00' ∉ p.stdout
  relays : ∀ call k middle, p.pc = .relay call k middle → cstr middle ≠ []

/-- A friend that keeps to its part. -/
def Proc.Good (p : Proc) (friends : Forest Proc) : Prop := p.Friendly ∧ p.Tends friends

/-- A line that is a `Meet` command. -/
def IsCommand (line : List Char) : Prop :=
  ∃ parent child value, line = meetLine parent child value ∧ WellFormed parent child value

section

variable {p p' f f' : Proc} {friends friends' below below' forest : Forest Proc}
  {heard ahead : List (List Char)} {given : Nat → List (List Char)} {line : List Char}
  {call : Call} {k count : Nat}

/-! ## Lines -/

theorem IsCommand.ne_nil (command : IsCommand line) : line ≠ [] := by
  obtain ⟨parent, child, value, rfl, _⟩ := command
  exact meetLine_ne_nil parent child value

/-- The friend that a command names has a name. -/
theorem IsCommand.named (command : IsCommand line)
    (parsed : parse line = some ("Meet".toList, call.parent, call.childName)) :
    IsName call.childName := by
  obtain ⟨parent, child, value, rfl, formed⟩ := command
  rw [parse_meetLine formed] at parsed
  simp only [Option.some.injEq, Prod.mk.injEq, true_and] at parsed
  rw [← parsed.2]
  exact formed.name

theorem count_written (plain : ∀ line ∈ ahead, '\n' ∉ line) :
    (written ahead).count '\n' = ahead.length := by
  induction ahead with
  | nil => rfl
  | cons line ahead ih =>
    obtain ⟨first, others⟩ := List.forall_mem_cons.mp plain
    have none : line.count '\n' = 0 := List.count_eq_zero_of_not_mem first
    have text : written (line :: ahead) = line ++ ['\n'] ++ written ahead := rfl
    rw [text, List.count_append, List.count_append, none, ih others, List.length_cons]
    simp [Nat.add_comm]

theorem Proc.Obeys.lines_eq (obeys : p.Obeys heard ahead friends) : p.lines = ahead.length := by
  unfold Proc.lines
  rw [obeys.stdin]
  exact count_written fun line member => obeys.plain line (List.mem_append_right _ member)

/-- A line that is handed on is one line more. -/
theorem lines_hand (last : call.Last heard) (plain : ∀ line ∈ heard, '\n' ∉ line) (f : Proc) :
    (f.hand call.toChildCmd).lines = f.lines + 1 := by
  obtain ⟨earlier, line, rfl, text, _⟩ := last
  have none : line.count '\n' = 0 := List.count_eq_zero_of_not_mem (plain line (by simp))
  rw [text]
  unfold Proc.lines Proc.hand
  rw [List.count_append, List.count_append, none]
  simp

/-! ## Replies -/

theorem Proc.Friendly.not_root (friendly : p.Friendly) (begun : p.pc ≠ .start) :
    p.isNotTako = false := by
  unfold Proc.isNotTako
  rw [friendly.same begun]
  exact decide_eq_false friendly.named.ne_root

theorem Proc.Friendly.goTo (friendly : p.Friendly) (begun : p.pc ≠ .start) {pc : Pc}
    {stdin stdout : List Char} (clean : '\x00' ∉ stdout)
    (relays : ∀ call k middle, pc = .relay call k middle → cstr middle ≠ []) :
    Proc.Friendly { p with pc := pc, stdin := stdin, stdout := stdout } where
  named := friendly.named
  same _ := friendly.same begun
  clean := clean
  relays := relays

theorem Proc.Friendly.clean_append (friendly : p.Friendly) {text : List Char}
    (clean : '\x00' ∉ text) : '\x00' ∉ p.stdout ++ text := by
  rw [List.mem_append, not_or]
  exact ⟨friendly.clean, clean⟩

theorem zero_notMem_cstr (bytes : List Char) : '\x00' ∉ cstr bytes := by
  intro member
  have different := List.mem_takeWhile_imp member
  simp at different

/-- What a friend has read of a reply is not empty. -/
theorem cstr_read {bytes rest : List Char} (some' : bytes ≠ []) (clean : '\x00' ∉ bytes) :
    cstr (bytes ++ rest) ≠ [] := by
  cases bytes with
  | nil => exact absurd rfl some'
  | cons c bytes =>
    have different : c ≠ '\x00' := fun same => clean (by rw [same]; exact List.mem_cons_self)
    simp [cstr, different]

theorem zero_notMem_name {name : List Char} (named : IsName name) : '\x00' ∉ name :=
  fun member => (named.plain _ member).2.2.2 rfl

/-- A friend keeps its name, and what it prints is part of a name or `-`. -/
theorem Proc.Friendly.step (friendly : p.Friendly)
    (clean : ∀ f ∈ friends.roots, '\x00' ∉ f.stdout)
    (transition : p.step friends count = some (p', friends')) : p'.Friendly := by
  cases step_cases transition with
  | start =>
    exact
      { named := friendly.named
        same := fun _ => friendName_of_isName friendly.named _
        clean := friendly.clean
        relays := nofun }
  | take waits read takes =>
    have begun : p.pc ≠ .start := by rw [waits]; nofun
    cases takes with
    | empty => exact friendly.goTo begun friendly.clean friendly.relays
    | pass => exact friendly.goTo begun friendly.clean nofun
    | act => exact friendly.goTo begun friendly.clean nofun
  | hand asks => exact friendly.goTo (by rw [asks]; nofun) friendly.clean nofun
  | refuse asks printed =>
    have begun : p.pc ≠ .start := by rw [asks]; nofun
    rw [printed, friendly.not_root begun, if_neg Bool.false_ne_true]
    exact friendly.goTo begun (friendly.clean_append (by decide)) nofun
  | read awaits here some' part =>
    have whole : '\x00' ∉ _ := fun member => clean _ (Forest.mem_roots here) (part.subset member)
    refine friendly.goTo (by rw [awaits]; nofun) friendly.clean ?_
    rintro _ _ _ ⟨⟩
    exact cstr_read some' whole
  | goOn relays printed =>
    have begun : p.pc ≠ .start := by rw [relays]; nofun
    rw [printed, friendly.not_root begun, if_neg Bool.false_ne_true]
    exact friendly.goTo begun (friendly.clean_append (zero_notMem_cstr _)) nofun
  | done relays printed =>
    have begun : p.pc ≠ .start := by rw [relays]; nofun
    rw [printed, friendly.not_root begun, if_neg Bool.false_ne_true]
    exact friendly.goTo begun (friendly.clean_append (zero_notMem_cstr _)) nofun
  | fork forks => exact friendly.goTo (by rw [forks]; nofun) friendly.clean nofun
  | tell tells => exact friendly.goTo (by rw [tells]; nofun) friendly.clean nofun
  | report reports printed =>
    have begun : p.pc ≠ .start := by rw [reports]; nofun
    have name : '\x00' ∉ p.name := by
      rw [friendly.same begun]
      exact zero_notMem_name friendly.named
    rw [printed, friendly.not_root begun, if_neg Bool.false_ne_true]
    exact friendly.goTo begun (friendly.clean_append name) nofun

/-- A friend that prints a name or part of one has replied. -/
theorem owes_of_printed {q : Proc} {text : List Char} (replied : text ≠ [])
    (printed : q.stdout = p.stdout ++ text) : q.Owes := by
  left
  rw [printed]
  simp [replied]

/-- A friend that owes a reply still does after a step of its own. -/
theorem Proc.Owes.step (owes : p.Owes) (friendly : p.Friendly)
    (obeys : p.Obeys heard ahead friends) (commands : ∀ line ∈ ahead, line ≠ [])
    (transition : p.step friends count = some (p', friends')) : p'.Owes := by
  cases step_cases transition with
  | start first read parsed =>
    refine owes.imp_right fun busy => ?_
    unfold Proc.Busy at busy
    rw [first] at busy
    obtain ⟨later, rfl, rfl⟩ := obeys.read read
    rw [obeys.lines_eq] at busy
    change 1 ≤ (written later).count '\n'
    rw [count_written fun line member => obeys.plain line (by simp [member])]
    exact Nat.le_of_succ_le_succ busy
  | take waits read takes =>
    obtain ⟨later, rfl, rfl⟩ := obeys.read read
    cases takes with
    | empty blank => exact absurd blank (commands _ List.mem_cons_self)
    | pass => exact .inr trivial
    | act => exact .inr trivial
  | hand => exact .inr trivial
  | refuse asks printed =>
    rw [printed, friendly.not_root (by rw [asks]; nofun), if_neg Bool.false_ne_true]
    exact owes_of_printed (List.cons_ne_nil '-' []) rfl
  | read => exact .inr trivial
  | goOn => exact .inr trivial
  | done relays printed =>
    rw [printed, friendly.not_root (by rw [relays]; nofun), if_neg Bool.false_ne_true]
    exact owes_of_printed (friendly.relays _ _ _ relays) rfl
  | fork => exact .inr trivial
  | tell => exact .inr trivial
  | report reports printed =>
    have begun : p.pc ≠ .start := by rw [reports]; nofun
    have name : p.name ≠ [] := by
      rw [friendly.same begun]
      exact friendly.named.nonempty
    rw [printed, friendly.not_root begun, if_neg Bool.false_ne_true]
    exact owes_of_printed name rfl

/-! ## Friends -/

/-- What a process can rely on when a friend makes a step. -/
structure Kept (f f' : Proc) : Prop where
  owes : f.Owes → f'.Owes
  begun : f'.pc = .start → f' = f
  waits : f.pc = .start → f.lines = 0 → f' = f

theorem Kept.refl (f : Proc) : Kept f f where
  owes owes := owes
  begun _ := rfl
  waits _ _ := rfl

theorem Told.along {fs fs' : List Proc} (told : Told fs) (kept : List.Forall₂ Kept fs fs') :
    Told fs' := by
  induction kept with
  | nil => exact told
  | @cons f f' fs fs' kept _ ih =>
    obtain ⟨first, others⟩ := List.forall_mem_cons.mp told
    refine List.forall_mem_cons.mpr ⟨fun waits => ?_, ih others⟩
    have same := kept.begun waits
    subst same
    exact first waits

theorem kept_newborn {before fs' : List Proc} {name : List Char}
    (kept : List.Forall₂ Kept (before ++ [.spawn name]) fs') :
    ∃ before', fs' = before' ++ [.spawn name] ∧ List.Forall₂ Kept before before' := by
  induction before generalizing fs' with
  | nil =>
    cases kept with
    | cons first rest =>
      cases rest
      exact ⟨[], by rw [first.waits rfl rfl]; rfl, .nil⟩
  | cons f before ih =>
    cases kept with
    | cons first rest =>
      obtain ⟨before', rfl, along⟩ := ih rest
      exact ⟨_ :: before', rfl, .cons first along⟩

theorem kept_root {fs fs' : List Proc} (kept : List.Forall₂ Kept fs fs') (here : fs[k]? = some f) :
    ∃ f', fs'[k]? = some f' ∧ Kept f f' := by
  induction kept generalizing k with
  | nil => cases here
  | cons first _ ih =>
    cases k with
    | zero =>
      cases here
      exact ⟨_, rfl, first⟩
    | succ k => exact ih here

/-- A process tends its friends while they make steps. -/
theorem Proc.Tends.along (tends : p.Tends friends)
    (kept : List.Forall₂ Kept friends.roots friends'.roots) : p.Tends friends' where
  owed call k middle awaits := by
    obtain ⟨f, here, owes⟩ := tends.owed call k middle awaits
    rw [Forest.root?_eq] at here
    obtain ⟨f', there, kept⟩ := kept_root kept here
    exact ⟨f', (Forest.root?_eq friends' k).trans there, kept.owes owes⟩
  told tells := (tends.told tells).along kept
  newborn call tells := by
    obtain ⟨before, name, same, told⟩ := tends.newborn call tells
    rw [same] at kept
    obtain ⟨before', same', along⟩ := kept_newborn kept
    exact ⟨before', name, same', told.along along⟩

/-- A friend that is handed a line owes a reply. -/
theorem owes_hand (last : call.Last heard) (plain : ∀ line ∈ heard, '\n' ∉ line)
    (told : f.pc = .start → 1 ≤ f.lines) : (f.hand call.toChildCmd).Owes := by
  right
  have more := lines_hand last plain f
  unfold Proc.Busy
  change (match f.pc with | .start => _ | .loop => _ | _ => True)
  split
  · rename_i waits
    have one := told waits
    omega
  · omega
  · trivial

theorem told_modify {g : Proc → Proc} (pc : ∀ f, (g f).pc = f.pc) (lines : ∀ f, f.lines ≤ (g f).lines)
    (told : Told friends.roots) (k : Nat) : Told (friends.modify g k).roots := by
  refine Forest.forall_roots_modify ?_ k told
  intro f enough waits
  rw [pc] at waits
  exact (enough waits).trans (lines f)

theorem good_spawn {name : List Char} (named : IsName name) : (Proc.spawn name).Good .nil := by
  rw [spawn_of_isName named]
  constructor
  · exact ⟨named, fun begun => absurd rfl begun, nofun, nofun⟩
  · exact ⟨nofun, fun _ => nofun, nofun⟩

/-- A friend whose pipes change stays one. -/
theorem good_modify {g : Proc → Proc} (info : ∀ f, (g f).info = f.info)
    (name : ∀ f, (g f).name = f.name) (pc : ∀ f, (g f).pc = f.pc)
    (part : ∀ f, (g f).stdout <:+ f.stdout) (good : friends.All Proc.Good) (k : Nat) :
    (friends.modify g k).All Proc.Good := by
  refine good.modify ?_ k
  rintro f below ⟨friendly, tends⟩
  constructor
  · exact
      { named := by rw [info]; exact friendly.named
        same := by rw [info, name, pc]; exact friendly.same
        clean := fun member => friendly.clean ((part f).subset member)
        relays := by rw [pc]; exact friendly.relays }
  · exact
      { owed := by rw [pc]; exact tends.owed
        told := by rw [pc]; exact tends.told
        newborn := by rw [pc]; exact tends.newborn }

theorem good_hand (text : List Char) (good : friends.All Proc.Good) (k : Nat) :
    (friends.modify (fun f => f.hand text) k).All Proc.Good :=
  good_modify (g := fun f => f.hand text) (fun _ => rfl) (fun _ => rfl) (fun _ => rfl)
    (fun _ => List.suffix_refl _) good k

theorem good_read (n : Nat) (good : friends.All Proc.Good) (k : Nat) :
    (friends.modify (fun f => { f with stdout := f.stdout.drop n }) k).All Proc.Good :=
  good_modify (g := fun f => { f with stdout := f.stdout.drop n }) (fun _ => rfl) (fun _ => rfl)
    (fun _ => rfl) (fun _ => List.drop_suffix _ _) good k

/-- Where no friend is awaited or about to be told its first line. -/
theorem Proc.Tends.of_told (told : Told friends.roots)
    (awaits : ∀ call k middle, p.pc ≠ .await call k middle) (tells : ∀ call, p.pc ≠ .tell call) :
    p.Tends friends where
  owed call k middle waiting := absurd waiting (awaits call k middle)
  told _ := told
  newborn call telling := absurd telling (tells call)

/-- A step of a process with the friends it tends. -/
theorem Proc.Tends.step (tends : p.Tends friends) (obeys : p.Obeys heard ahead friends)
    (commands : ∀ line ∈ heard, IsCommand line) (good : friends.All Proc.Good)
    (transition : p.step friends count = some (p', friends')) :
    p'.Tends friends' ∧ friends'.All Proc.Good := by
  have plain : ∀ line ∈ heard, '\n' ∉ line := fun line member =>
    obeys.plain line (List.mem_append_left _ member)
  cases step_cases transition with
  | start first =>
    exact ⟨.of_told (tends.told (by rw [first]; nofun)) nofun nofun, good⟩
  | take waits read takes =>
    have told := tends.told (by rw [waits]; nofun)
    cases takes with
    | empty => exact ⟨.of_told told (by rw [waits]; nofun) (by rw [waits]; nofun), good⟩
    | pass => exact ⟨.of_told told nofun nofun, good⟩
    | act => exact ⟨.of_told told nofun nofun, good⟩
  | @hand call k middle asks inside =>
    have last := obeys.current call (by rw [asks]; rfl)
    have told := tends.told (by rw [asks]; nofun)
    have more : ∀ f : Proc, f.lines ≤ (f.hand call.toChildCmd).lines := fun f => by
      rw [lines_hand last plain]
      exact Nat.le_succ _
    obtain ⟨f, here⟩ := Forest.exists_root inside
    refine ⟨?_, good_hand _ good k⟩
    refine
      { owed := ?_
        told := fun _ => told_modify (g := fun f => f.hand _) (fun _ => rfl) more told k
        newborn := nofun }
    rintro _ _ _ ⟨⟩
    exact ⟨_, Forest.root?_modify here, owes_hand last plain (told f (Forest.mem_roots here))⟩
  | refuse asks =>
    exact ⟨.of_told (tends.told (by rw [asks]; nofun)) nofun nofun, good⟩
  | @read call k middle f bytes awaits here =>
    have told := tends.told (by rw [awaits]; nofun)
    refine ⟨.of_told ?_ nofun nofun, good_read bytes.length good k⟩
    exact told_modify (g := fun f => { f with stdout := f.stdout.drop bytes.length })
      (fun _ => rfl) (fun _ => Nat.le_refl _) told k
  | goOn relays =>
    exact ⟨.of_told (tends.told (by rw [relays]; nofun)) nofun nofun, good⟩
  | done relays =>
    exact ⟨.of_told (tends.told (by rw [relays]; nofun)) nofun nofun, good⟩
  | @fork call forks =>
    have told := tends.told (by rw [forks]; nofun)
    obtain ⟨earlier, line, rfl, _, parsed⟩ := obeys.current call (by rw [forks]; rfl)
    have named : IsName call.childName := (commands line (by simp)).named parsed
    refine ⟨?_, good.snoc (good_spawn named)⟩
    refine { owed := nofun, told := fun tells => absurd rfl (tells call), newborn := ?_ }
    rintro _ ⟨⟩
    exact ⟨friends.roots, call.childName, Forest.roots_snoc _ friends, told⟩
  | @tell call tells =>
    have last := obeys.current call (by rw [tells]; rfl)
    obtain ⟨before, name, same, told⟩ := tends.newborn call tells
    refine ⟨.of_told ?_ nofun nofun, good_hand _ good _⟩
    rw [Forest.roots_modify_last same]
    intro f member waits
    rcases List.mem_append.mp member with old | new
    · exact told f old waits
    · rw [List.mem_singleton.mp new, lines_hand last plain]
      exact Nat.succ_le_succ (Nat.zero_le _)
  | report reports =>
    exact ⟨.of_told (tends.told (by rw [reports]; nofun)) nofun nofun, good⟩

/-- What a friend makes of its own step. -/
theorem Proc.Good.kept (good : p.Good friends) (obeys : p.Obeys heard ahead friends)
    (commands : ∀ line ∈ ahead, IsCommand line)
    (transition : p.step friends count = some (p', friends')) : Kept p p' where
  owes owes := owes.step good.1 obeys (fun line member => (commands line member).ne_nil) transition
  begun waits := by
    cases step_cases transition with
    | take waiting read takes =>
      cases takes with
      | empty =>
        change p.pc = .start at waits
        rw [waiting] at waits
        cases waits
      | pass => cases waits
      | act => cases waits
    | _ => cases waits
  waits first empty := by
    rw [obeys.lines_eq] at empty
    cases step_cases transition with
    | start _ read =>
      obtain ⟨later, rfl, _⟩ := obeys.read read
      cases empty
    | _ => simp_all

/-- A step among friends keeps them good, and those that owe a reply. -/
theorem Heard.kept {place : Place} {after : Forest Proc} (hears : Heard given forest)
    (commands : ∀ j, ∀ line ∈ given j, IsCommand line) (good : forest.All Proc.Good)
    (transition : stepAt count forest place = some after) :
    List.Forall₂ Kept forest.roots after.roots ∧ after.All Proc.Good := by
  induction hears generalizing place after with
  | nil => cases place <;> cases transition
  | @node given p friends others heard ahead among obeys below beside ihBelow ihBeside =>
    obtain ⟨own, under, next⟩ := good
    have all : ∀ line ∈ heard ++ ahead, IsCommand line := fun line member =>
      commands 0 line (among.subset member)
    have first : ∀ line ∈ heard, IsCommand line := fun line member =>
      all line (List.mem_append_left _ member)
    have same : List.Forall₂ Kept others.roots others.roots :=
      List.forall₂_same.mpr fun f _ => .refl f
    cases stepAt_cases transition with
    | here stepped =>
      have clean : ∀ f ∈ friends.roots, '\x00' ∉ f.stdout := fun f member => by
        obtain ⟨_, friendly, _⟩ := under.of_mem member
        exact friendly.clean
      obtain ⟨tends, under'⟩ := own.2.step obeys first under stepped
      have kept := own.kept obeys (fun line member => all line (List.mem_append_right _ member)) stepped
      exact ⟨.cons kept same, ⟨own.1.step clean stepped, tends⟩, under', next⟩
    | child stepped =>
      have handed : ∀ j, ∀ line ∈ p.pc.handed heard j, IsCommand line := fun j line member =>
        first line ((handed_sublist p.pc heard j).subset member)
      obtain ⟨kept, under'⟩ := ihBelow handed under stepped
      exact ⟨.cons (.refl p) same, ⟨own.1, own.2.along kept⟩, under', next⟩
    | next stepped =>
      obtain ⟨kept, next'⟩ := ihBeside (fun j => commands (j + 1)) next stepped
      exact ⟨.cons (.refl p) kept, own, under, next'⟩

/-! ## No friend waits for ever -/

/-- A line before a process is read. -/
theorem Proc.Obeys.reads (obeys : p.Obeys heard ahead friends) (more : 1 ≤ p.lines) :
    ∃ line later, ahead = line :: later ∧ readLine p.stdin = some (line, written later) := by
  rw [obeys.lines_eq] at more
  cases ahead with
  | nil => cases more
  | cons line later =>
    refine ⟨line, later, rfl, ?_⟩
    rw [obeys.stdin]
    exact readLine_cons (obeys.plain line (by simp)) later

theorem takeLine_possible (obeys : p.Obeys heard ahead friends)
    (commands : ∀ line ∈ ahead, IsCommand line) (more : 1 ≤ p.lines) :
    ∃ p', p.takeLine = some p' := by
  obtain ⟨line, later, rfl, read⟩ := obeys.reads more
  obtain ⟨parent, child, value, rfl, formed⟩ := commands line List.mem_cons_self
  have fits : ¬ MAX_CMD_LEN < (meetLine parent child value).length + 2 :=
    Nat.not_lt.mpr formed.fits
  unfold Proc.takeLine
  simp only [read, Option.bind_eq_bind, Option.bind_some, meetLine_ne_nil, fits, if_false,
    parse_meetLine formed, if_true]
  exact ⟨_, rfl⟩

theorem startUp_possible (obeys : p.Obeys heard ahead friends)
    (commands : ∀ line ∈ ahead, IsCommand line) (more : 1 ≤ p.lines) :
    ∃ p', p.startUp = some p' := by
  obtain ⟨line, later, rfl, read⟩ := obeys.reads more
  obtain ⟨parent, child, value, rfl, formed⟩ := commands line List.mem_cons_self
  unfold Proc.startUp
  simp only [read, Option.bind_eq_bind, Option.bind_some, parse_meetLine formed]
  exact ⟨_, rfl⟩

theorem relayReply_possible {middle : List Char}
    (room : '\x00' ∈ middle ∨ (p.isNotTako = true ∧ middle.head? = some '-')) :
    ∃ p', p.relayReply call k middle = some p' := by
  unfold Proc.relayReply
  rcases room with room | ⟨root, refused⟩
  · rw [if_pos room, if_pos room]
    split
    · split
      · exact ⟨_, rfl⟩
      · exact ⟨_, rfl⟩
    · split
      · exact ⟨_, rfl⟩
      · exact ⟨_, rfl⟩
  · rw [if_pos root, if_pos refused]
    exact ⟨_, rfl⟩

/-- A process with a command to attend to can go on, unless it waits for a reply that has not come
or cannot print the one it has. -/
theorem Proc.Busy.step (busy : p.Busy) (obeys : p.Obeys heard ahead friends)
    (commands : ∀ line ∈ ahead, IsCommand line) :
    p.Overfull ∨ (∃ call k middle, p.pc = .await call k middle) ∨
      ∃ after, p.step friends 1 = some after := by
  unfold Proc.Busy at busy
  unfold Proc.step
  split at busy
  · rename_i first
    obtain ⟨p', begun⟩ := startUp_possible obeys commands (Nat.le_of_succ_le busy)
    rw [first]
    exact .inr (.inr ⟨(p', friends), by simp [begun]⟩)
  · rename_i waits
    obtain ⟨p', taken⟩ := takeLine_possible obeys commands busy
    rw [waits]
    exact .inr (.inr ⟨(p', friends), by simp [taken]⟩)
  · cases at' : p.pc with
    | start => simp_all
    | loop => simp_all
    | await call k middle => exact .inr (.inl ⟨call, k, middle, rfl⟩)
    | relay call k middle =>
      by_cases room : '\x00' ∈ middle ∨ (p.isNotTako = true ∧ middle.head? = some '-')
      · obtain ⟨p', relayed⟩ : ∃ p', p.relayReply call k middle = some p' :=
          relayReply_possible room
        exact .inr (.inr ⟨(p', friends), by simp [relayed]⟩)
      · exact .inl ⟨call, k, middle, at', not_or.mp room⟩
    | ask => exact .inr (.inr ⟨_, rfl⟩)
    | fork => exact .inr (.inr ⟨_, rfl⟩)
    | tell => exact .inr (.inr ⟨_, rfl⟩)
    | report => exact .inr (.inr ⟨_, rfl⟩)

/-- If the friends that owe replies can go on, so can the process that waits for one of them. -/
theorem Proc.Busy.possible (busy : p.Busy) (obeys : p.Obeys heard ahead friends)
    (commands : ∀ line ∈ ahead, IsCommand line) (tends : p.Tends friends)
    (below : ∀ k f, friends.root? k = some f → f.Busy →
      (∃ q ∈ friends.labels, q.Overfull) ∨ ∃ place after, stepAt 1 friends place = some after) :
    p.Overfull ∨ (∃ q ∈ friends.labels, q.Overfull) ∨
      (∃ after, p.step friends 1 = some after) ∨
        ∃ place after, stepAt 1 friends place = some after := by
  rcases busy.step obeys commands with full | ⟨call, k, middle, awaits⟩ | goes
  · exact .inl full
  · obtain ⟨f, here, replied | working⟩ := tends.owed call k middle awaits
    · have reads := readReply_possible p call middle here replied (Nat.zero_lt_one)
      refine .inr (.inr (.inl ?_))
      unfold Proc.step
      rw [awaits]
      exact reads
    · exact .inr ((below k f here working).imp_right .inr)
  · exact .inr (.inr (.inl goes))

/-- Below a busy process some process can go on, or has filled its buffer. -/
theorem Heard.possible (hears : Heard given forest)
    (commands : ∀ j, ∀ line ∈ given j, IsCommand line) (good : forest.All Proc.Good)
    (here : forest.root? k = some f) (busy : f.Busy) :
    (∃ q ∈ forest.labels, q.Overfull) ∨ ∃ place after, stepAt 1 forest place = some after := by
  induction hears generalizing k f with
  | nil => cases here
  | @node given p friends others heard ahead among obeys below beside ihBelow ihBeside =>
    obtain ⟨own, under, next⟩ := good
    have all : ∀ line ∈ heard ++ ahead, IsCommand line := fun line member =>
      commands 0 line (among.subset member)
    cases k with
    | zero =>
      cases here
      have handed : ∀ j, ∀ line ∈ p.pc.handed heard j, IsCommand line := fun j line member =>
        all line (List.mem_append_left _ ((handed_sublist p.pc heard j).subset member))
      have ahead' : ∀ line ∈ ahead, IsCommand line := fun line member =>
        all line (List.mem_append_right _ member)
      rcases busy.possible obeys ahead' own.2 fun k f here busy => ihBelow handed under here busy
        with full | ⟨q, member, full⟩ | ⟨⟨p', friends'⟩, goes⟩ | ⟨place, after, goes⟩
      · exact .inl ⟨p, List.mem_cons_self, full⟩
      · refine .inl ⟨q, ?_, full⟩
        exact List.mem_cons_of_mem _ (List.mem_append_left _ member)
      · exact .inr ⟨.here, .node p' friends' others, by simp [stepAt, goes]⟩
      · exact .inr ⟨.child place, .node p after others, by simp [stepAt, goes]⟩
    | succ k =>
      rcases ihBeside (fun j => commands (j + 1)) next here busy with
        ⟨q, member, full⟩ | ⟨place, after, goes⟩
      · refine .inl ⟨q, ?_, full⟩
        exact List.mem_cons_of_mem _ (List.mem_append_right _ member)
      · exact .inr ⟨.next place, .node p friends after, by simp [stepAt, goes]⟩

end
end NTUSP.Friend
