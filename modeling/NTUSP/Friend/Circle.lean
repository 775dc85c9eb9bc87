import NTUSP.Friend.Model

/-!
# Who has met whom

The tree that Not_Tako's commands should build, and what he should say about each, without
processes and pipes. `Straight` describes the trees in which the friend that is asked for is
found without a detour: every friend of Not_Tako that is asked in vain has no friends itself,
and below the others the way leads along first children.
-/

namespace NTUSP.Friend

open NTUSP.Library CString

/-- The tree below Not_Tako and what he has printed. -/
structure Circle where
  friends : Forest (List Char)
  printed : List Char

namespace Circle

def alone : Circle where
  friends := .nil
  printed := []

/-- `Meet parent child`. -/
def meet (circle : Circle) (parent child : List Char) : Circle :=
  if parent = rootName then
    { friends := circle.friends.snoc child
      printed := circle.printed ++ printDirectMeet child }
  else if parent ∈ circle.friends.labels then
    { friends := circle.friends.graft parent child
      printed := circle.printed ++ printIndirectMeet parent child }
  else { circle with printed := circle.printed ++ printFailMeet parent child }

/-- A friend is met exactly if the other is Not_Tako or known already. -/
theorem mem_meet {circle : Circle} {parent child name : List Char} :
    name ∈ (circle.meet parent child).friends.labels ↔
      name ∈ circle.friends.labels ∨
        (name = child ∧ (parent = rootName ∨ parent ∈ circle.friends.labels)) := by
  unfold meet
  split
  · rename_i own
    simp [Forest.mem_snoc, own]
  split
  · rename_i other known
    simp [Forest.mem_graft, other, known]
  · rename_i other unknown
    simp [other, unknown]

/-- A new name leaves the names distinct. -/
theorem nodup_meet {circle : Circle} {parent child : List Char}
    (distinct : circle.friends.labels.Nodup) (new : child ∉ circle.friends.labels) :
    (circle.meet parent child).friends.labels.Nodup := by
  have more : (child :: circle.friends.labels).Nodup := List.nodup_cons.mpr ⟨new, distinct⟩
  unfold meet
  split
  · exact (Forest.snoc_perm child circle.friends).nodup_iff.mpr more
  split
  · rename_i known
    exact (Forest.graft_perm known).nodup_iff.mpr more
  · exact distinct

/-- The tree behind some commands. -/
def behind (commands : List (List Char × List Char)) : Circle :=
  commands.foldl (fun circle command => circle.meet command.1 command.2) alone

theorem behind_append (commands : List (List Char × List Char)) (parent child : List Char) :
    behind (commands ++ [(parent, child)]) = (behind commands).meet parent child := by
  simp [behind]

end Circle

/-! ## The commands -/

/-- The name of a friend. -/
structure IsName (name : List Char) : Prop where
  nonempty : name ≠ []
  short : name.length < MAX_FRIEND_NAME_LEN
  plain : ∀ c ∈ name, c ≠ ' ' ∧ c ≠ '_' ∧ c ≠ '\n' ∧ c ≠ '\x00'
  head : name.head? ≠ some '-'

/-- A token of a command line. -/
structure IsToken (text : List Char) : Prop where
  nonempty : text ≠ []
  blank : ' ' ∉ text
  line : '\n' ∉ text

/-- The command is a line for the buffers of the program, and names a possible friend. -/
structure WellFormed (parent child value : List Char) : Prop where
  token : IsToken parent
  name : IsName child
  blank : ' ' ∉ value
  line : '\n' ∉ value
  fits : (meetLine parent child value).length + 2 ≤ MAX_CMD_LEN

instance (name : List Char) : Decidable (IsName name) :=
  have := List.decidableBAll (fun c => c ≠ ' ' ∧ c ≠ '_' ∧ c ≠ '\n' ∧ c ≠ '\x00') name
  decidable_of_iff (name ≠ [] ∧ name.length < MAX_FRIEND_NAME_LEN ∧
      (∀ c ∈ name, c ≠ ' ' ∧ c ≠ '_' ∧ c ≠ '\n' ∧ c ≠ '\x00') ∧ name.head? ≠ some '-')
    ⟨fun ⟨nonempty, short, plain, head⟩ => ⟨nonempty, short, plain, head⟩,
      fun ⟨nonempty, short, plain, head⟩ => ⟨nonempty, short, plain, head⟩⟩

instance (text : List Char) : Decidable (IsToken text) :=
  decidable_of_iff (text ≠ [] ∧ ' ' ∉ text ∧ '\n' ∉ text)
    ⟨fun ⟨nonempty, blank, line⟩ => ⟨nonempty, blank, line⟩,
      fun ⟨nonempty, blank, line⟩ => ⟨nonempty, blank, line⟩⟩

instance (parent child value : List Char) : Decidable (WellFormed parent child value) :=
  decidable_of_iff (IsToken parent ∧ IsName child ∧ ' ' ∉ value ∧ '\n' ∉ value ∧
      (meetLine parent child value).length + 2 ≤ MAX_CMD_LEN)
    ⟨fun ⟨token, name, blank, line, fits⟩ => ⟨token, name, blank, line, fits⟩,
      fun ⟨token, name, blank, line, fits⟩ => ⟨token, name, blank, line, fits⟩⟩

/-- The parts of a command are found again. -/
theorem parse_meetLine {parent child value : List Char} (formed : WellFormed parent child value) :
    parse (meetLine parent child value) = some ("Meet".toList, parent, child) := by
  have word : strtok ' ' (meetLine parent child value) =
      some ("Meet".toList, parent ++ ' ' :: (child ++ '_' :: value)) :=
    strtok_append (by decide) (by decide) _
  have next : strtok ' ' (parent ++ ' ' :: (child ++ '_' :: value)) =
      some (parent, child ++ '_' :: value) :=
    strtok_append formed.token.nonempty formed.token.blank _
  have inside : ' ' ∉ child ++ '_' :: value := by
    intro member
    rcases List.mem_append.mp member with named | valued
    · exact (formed.name.plain _ named).1 rfl
    · exact formed.blank (by simpa using valued)
  have last : strtok ' ' (child ++ '_' :: value) = some (child ++ '_' :: value, []) :=
    strtok_last (by simp) inside
  have plain : ∀ c ∈ child, decide (c ≠ '_') = true := fun c member => by
    simpa using (formed.name.plain c member).2.1
  have name : (child ++ '_' :: value).takeWhile (· ≠ '_') = child := by
    rw [List.takeWhile_append_of_pos plain]
    simp
  unfold parse
  simp only [word, next, last, name, Option.bind_eq_bind, Option.bind_some]
  rfl

theorem meetLine_line {parent child value : List Char} (formed : WellFormed parent child value) :
    '\n' ∉ meetLine parent child value := by
  have named : '\n' ∉ child := fun member => (formed.name.plain _ member).2.2.1 rfl
  simp [meetLine, formed.token.line, named, formed.line]

/-- A command is not empty. -/
theorem meetLine_ne_nil (parent child value : List Char) : meetLine parent child value ≠ [] := by
  simp [meetLine]

/-- A line is read up to its end. -/
theorem readLine_append {line : List Char} (inside : '\n' ∉ line) (rest : List Char) :
    readLine (line ++ '\n' :: rest) = some (line, rest) := by
  have plain : ∀ c ∈ line, decide (c ≠ '\n') = true := by
    intro c member
    simpa using fun same : c = '\n' => inside (same ▸ member)
  unfold readLine
  rw [if_pos (by simp), List.takeWhile_append_of_pos plain, List.dropWhile_append_of_pos plain]
  simp

/-! ## Trees without a detour -/

/-- The first children lead to `p`. -/
def Leads (p : List Char) : Forest (List Char) → Prop
  | .nil => False
  | .node a friends _ => a = p ∨ Leads p friends

/-- The trees that come before the one in which the first children lead to `p` are leaves. -/
def Straight (p : List Char) : Forest (List Char) → Prop
  | .nil => True
  | .node a friends others =>
      a = p ∨ Leads p friends ∨ (friends = .nil ∧ Straight p others)

instance decidableLeads (p : List Char) : (friends : Forest (List Char)) → Decidable (Leads p friends)
  | .nil => inferInstanceAs (Decidable False)
  | .node a friends _ =>
      have := decidableLeads p friends
      inferInstanceAs (Decidable (a = p ∨ Leads p friends))

instance decidableStraight (p : List Char) :
    (friends : Forest (List Char)) → Decidable (Straight p friends)
  | .nil => inferInstanceAs (Decidable True)
  | .node a friends others =>
      have := decidableStraight p others
      inferInstanceAs (Decidable (a = p ∨ Leads p friends ∨ (friends = .nil ∧ Straight p others)))

theorem Leads.mem {p : List Char} {friends : Forest (List Char)} (leads : Leads p friends) :
    p ∈ friends.labels := by
  induction friends with
  | nil => exact leads.elim
  | node a below others ih _ =>
    rcases leads with same | deeper
    · simp [Forest.labels, same]
    · simp [Forest.labels, ih deeper]

end NTUSP.Friend
