import NTUSP.Server.Model

/-!
# Lines and reads

`handle_read` takes the bytes of one `read` for one line and keeps no remainder. So the
requests of a client are its lines when every `read` happens to return one of them. The
only other cut it can bear is between the CR and the LF of an empty line.
-/

namespace NTUSP.Server

open NTUSP.Library CString

/-- A line of a client, ended by CR LF or by LF alone. -/
structure Line where
  text : List Char
  crlf : Bool
  noNul : '\x00' ∉ text
  noNewline : '\n' ∉ text
  short : text.length < 511
  bare : crlf = false → text.getLast? ≠ some '\r'

/-- `\r` is no part of a line that ends with it. -/
def stripCR (raw : List Char) : List Char :=
  if raw.getLast? = some '\r' then raw.dropLast else raw

namespace Line

/-- The line up to its LF. -/
def raw (line : Line) : List Char := line.text ++ if line.crlf then ['\r'] else []

def bytes (line : Line) : List Char := line.raw ++ ['\n']

theorem stripCR_raw (line : Line) : stripCR line.raw = line.text := by
  unfold stripCR raw
  cases ended : line.crlf with
  | true => simp
  | false => simp [line.bare ended]

theorem noNewline_raw (line : Line) : '\n' ∉ line.raw := by
  unfold raw
  cases line.crlf <;> simp [line.noNewline]

theorem noNul_raw (line : Line) : '\x00' ∉ line.raw := by
  unfold raw
  cases line.crlf <;> simp [line.noNul]

end Line

/-- The reads return the bytes of the lines, cut in some way. -/
structure Cut (lines : List Line) (reads : List (List Char)) : Prop where
  whole : reads.flatten = lines.flatMap Line.bytes
  sizes : ∀ chunk ∈ reads, chunk ≠ [] ∧ chunk.length ≤ MAX_MSG_LEN

/-- The search for CR LF ends in `buf`: at a NUL, which is behind a shorter chunk, or where it
succeeds. -/
def ScansInside (chunk : List Char) : Prop :=
  chunk.length < MAX_MSG_LEN ∨ '\x00' ∈ chunk ∨ (strstr ['\r', '\n'] (cstr chunk)).isSome

instance (chunk : List Char) : Decidable (ScansInside chunk) := by
  unfold ScansInside
  infer_instance

/-- The request strings that `handle_read` stores from successive reads, until the connection
counts as closed; `none` when an access is outside the buffers. -/
def requests : List (List Char) → Option (List (List Char))
  | [] => some []
  | chunk :: rest =>
      if ScansInside chunk then
        match handleRead chunk with
        | .eof => some []
        | .line text => (requests rest).map (text :: ·)
        | .overrun => none
      else none

/-- The CR that a read returns ahead of the LF of an empty line. -/
def carriedCR (carried : Bool) : List Char := if carried then ['\r'] else []

/-- The rest of a line, up to its LF. -/
def Line.left (line : Line) (carried : Bool) : List Char := if carried then [] else line.raw

/-- Every read returns one line. With `carried` the CR of the first line, which is empty, came
with the read before. -/
inductive OneLineEach : Bool → List Line → List (List Char) → Prop where
  | nil : OneLineEach false [] []
  | read {carried carries : Bool} {line : Line} {lines : List Line} {rest : List (List Char)}
      (empty : carried = true → line.text = [] ∧ line.crlf = true)
      (fits : carries = true → line.crlf = true ∨ line.text.length < 510)
      (next : OneLineEach carries lines rest) :
      OneLineEach carried (line :: lines)
        ((line.left carried ++ '\n' :: carriedCR carries) :: rest)

namespace Line

theorem noNewline_left (line : Line) (carried : Bool) : '\n' ∉ line.left carried := by
  unfold left
  cases carried with
  | true => exact List.not_mem_nil
  | false => exact line.noNewline_raw

theorem raw_eq_left (line : Line) {carried : Bool}
    (empty : carried = true → line.text = [] ∧ line.crlf = true) :
    line.raw = carriedCR carried ++ line.left carried := by
  cases carried with
  | true =>
    obtain ⟨text, crlf⟩ := empty rfl
    simp [raw, carriedCR, left, text, crlf]
  | false => simp [carriedCR, left]

theorem stripCR_left (line : Line) {carried : Bool}
    (empty : carried = true → line.text = [] ∧ line.crlf = true) :
    stripCR (line.left carried) = line.text := by
  cases carried with
  | true => simp [left, stripCR, (empty rfl).1]
  | false => exact line.stripCR_raw

end Line

theorem noNewline_carriedCR (carried : Bool) : '\n' ∉ carriedCR carried := by
  cases carried <;> decide

/-! ## One read -/

section

variable {chunk before after : List Char}

theorem cstr_eq_self (noNul : '\x00' ∉ chunk) : cstr chunk = chunk := by
  unfold cstr
  rw [List.takeWhile_eq_self_iff]
  intro c member
  simpa using fun nul : c = '\x00' => noNul (nul ▸ member)

/-- CR LF is in a chunk with one LF exactly if the part before the LF ends with CR. -/
theorem crlf_infix_iff (first : '\n' ∉ before) (last : '\n' ∉ after) :
    ['\r', '\n'] <:+: before ++ '\n' :: after ↔ before.getLast? = some '\r' := by
  constructor
  · rintro ⟨start, more, same⟩
    rw [List.append_assoc] at same
    have split : start ++ ['\r'] = before := by
      have apart : (start ++ ['\r']) ++ '\n' :: more = before ++ '\n' :: after := by
        rw [← same]
        simp
      have once := congrArg (List.count '\n') apart
      simp only [List.count_append, List.count_cons_self, List.count_eq_zero.mpr first,
        List.count_eq_zero.mpr last] at once
      have clear : '\n' ∉ start ++ ['\r'] := by
        rw [← List.count_eq_zero, List.count_append]
        omega
      exact (append_cons_inj_of_first clear first apart).1
    rw [← split, List.getLast?_append]
    rfl
  · intro ended
    have same := List.dropLast_append_getLast? '\r' ended
    exact ⟨before.dropLast, after, by rw [← same]; simp⟩

/-- A chunk with one LF is stored up to it, without a CR. -/
theorem handleRead_single (noNul : '\x00' ∉ before ++ '\n' :: after) (first : '\n' ∉ before)
    (last : '\n' ∉ after) : handleRead (before ++ '\n' :: after) = .line (stripCR before) := by
  unfold handleRead
  rw [if_neg (by simp), cstr_eq_self noNul]
  by_cases ended : before.getLast? = some '\r'
  · have same := List.dropLast_append_getLast? '\r' ended
    have clear : '\n' ∉ before.dropLast := fun member => first (List.mem_of_mem_dropLast member)
    have apart : '\n' ∉ ['\r'] := by decide
    have found := strstr_append apart clear after
    have whole : before ++ '\n' :: after = before.dropLast ++ (['\r'] ++ '\n' :: after) := by
      rw [← List.append_assoc, same]
    rw [whole, show ['\r', '\n'] = ['\r'] ++ ['\n'] from rfl, found]
    simp [stripCR, ended]
  · have absent := strstr_eq_none ((crlf_infix_iff first last).not.mpr ended)
    have apart : '\n' ∉ ([] : List Char) := List.not_mem_nil
    have found := strstr_append apart first after
    simp only [List.nil_append] at found
    rw [absent, found]
    simp [stripCR, ended]

/-- A line is stored from a chunk with an LF only. -/
theorem newline_of_handleRead {text : List Char} (stored : handleRead chunk = .line text) :
    '\n' ∈ chunk := by
  have inside : ∀ {needle n}, '\n' ∈ needle → strstr needle (cstr chunk) = some n →
      '\n' ∈ chunk := by
    intro needle n member found
    exact (List.takeWhile_prefix _).subset ((strstr_sound found).subset member)
  unfold handleRead at stored
  split at stored
  · cases stored
  split at stored
  · rename_i found
    exact inside (by decide) found
  split at stored
  · rename_i found
    exact inside (by decide) found
  · split at stored <;> cases stored

/-- Only a CR in front of nothing goes unnoticed. -/
theorem stripCR_append (same : stripCR (before ++ after) = stripCR after) :
    before = [] ∨ before = ['\r'] ∧ after = [] := by
  cases after with
  | nil =>
    rw [List.append_nil] at same
    unfold stripCR at same
    split at same
    · rename_i ended
      have whole := List.dropLast_append_getLast? '\r' ended
      rw [same] at whole
      exact .inr ⟨whole.symm, rfl⟩
    · exact .inl same
  | cons c after =>
    have last : (before ++ c :: after).getLast? = (c :: after).getLast? :=
      List.getLast?_append_of_ne_nil before (by simp)
    unfold stripCR at same
    rw [last] at same
    left
    split at same
    · rw [List.dropLast_append_of_ne_nil (by simp)] at same
      exact List.append_left_eq_self.mp same
    · exact List.append_left_eq_self.mp same

end

/-! ## Successive reads -/

section

variable {lines : List Line} {chunk : List Char} {reads rest texts : List (List Char)}
  {carried : Bool}

/-- A stored request comes from a read of its own. -/
theorem requests_cons (stored : requests (chunk :: rest) = some texts) :
    texts = [] ∨ ∃ text others, texts = text :: others ∧ ScansInside chunk ∧
      handleRead chunk = .line text ∧ requests rest = some others := by
  unfold requests at stored
  split at stored
  · rename_i inside
    split at stored
    · exact .inl (Option.some.inj stored).symm
    · rename_i text line
      obtain ⟨others, later, rfl⟩ := Option.map_eq_some_iff.mp stored
      exact .inr ⟨text, others, rfl, inside, line, later⟩
    · cases stored
  · cases stored

/-- Every stored request has an LF in a read. -/
theorem length_le_count (stored : requests reads = some texts) :
    texts.length ≤ reads.flatten.count '\n' := by
  induction reads generalizing texts with
  | nil =>
    obtain rfl := Option.some.inj stored
    exact Nat.zero_le _
  | cons chunk rest ih =>
    rcases requests_cons stored with rfl | ⟨text, others, rfl, _, line, later⟩
    · exact Nat.zero_le _
    · have here := List.count_pos_iff.mpr (newline_of_handleRead line)
      have there := ih later
      rw [List.flatten_cons, List.count_append, List.length_cons]
      omega

/-- A line has one LF. -/
theorem count_lines (lines : List Line) :
    (lines.flatMap Line.bytes).count '\n' = lines.length := by
  induction lines with
  | nil => rfl
  | cons line lines ih =>
    have none := List.count_eq_zero.mpr line.noNewline_raw
    rw [List.flatMap_cons, List.count_append, ih, Line.bytes, List.count_append, none]
    simp
    omega

/-- As many requests as LFs: the first read has one LF, and is the request up to it. -/
theorem first_read (noNul : '\x00' ∉ chunk) {text : List Char} {others : List (List Char)}
    (stored : requests (chunk :: rest) = some (text :: others))
    (count : (chunk :: rest).flatten.count '\n' = others.length + 1) :
    ∃ before after, chunk = before ++ '\n' :: after ∧ '\n' ∉ before ∧ '\n' ∉ after ∧
      text = stripCR before ∧ ScansInside chunk ∧ requests rest = some others ∧
      rest.flatten.count '\n' = others.length := by
  rcases requests_cons stored with none | ⟨text', others', same, inside, line, later⟩
  · cases none
  obtain ⟨rfl, rfl⟩ := List.cons.inj same
  obtain ⟨before, after, rfl, first⟩ := List.eq_append_cons_of_mem (newline_of_handleRead line)
  have there := length_le_count later
  have clear := List.count_eq_zero.mpr first
  rw [List.flatten_cons, List.count_append, List.count_append, List.count_cons_self, clear] at count
  have last : '\n' ∉ after := List.count_eq_zero.mp (by omega)
  refine ⟨before, after, rfl, first, last, ?_, inside, later, by omega⟩
  rw [handleRead_single noNul first last] at line
  exact (ReadResult.line.inj line).symm

/-- Behind the LF a read returns at most the CR of an empty line. -/
theorem carries_of_requests {after : List Char} (last : '\n' ∉ after)
    (noNul : ∀ chunk ∈ rest, '\x00' ∉ chunk)
    (whole : after ++ rest.flatten = lines.flatMap Line.bytes)
    (stored : requests rest = some (lines.map Line.text))
    (count : rest.flatten.count '\n' = lines.length) :
    ∃ carries, after = carriedCR carries ∧
      (carries = true → ∃ line others, lines = line :: others ∧ line.text = [] ∧
        line.crlf = true) := by
  cases lines with
  | nil =>
    have empty : after = [] := (List.append_eq_nil_iff.mp whole).1
    exact ⟨false, empty, by simp⟩
  | cons line others =>
    cases rest with
    | nil => simp at count
    | cons chunk rest =>
      obtain ⟨before, more, rfl, first, _, text, _, _⟩ :=
        first_read (noNul chunk List.mem_cons_self) stored (by simpa using count)
      have split : after ++ before = line.raw := by
        have same : (after ++ before) ++ '\n' :: (more ++ rest.flatten) =
            line.raw ++ '\n' :: others.flatMap Line.bytes := by
          simpa [Line.bytes] using whole
        exact (append_cons_inj_of_first (List.not_mem_append last first) line.noNewline_raw
          same).1
      have stripped : stripCR (after ++ before) = stripCR before := by
        rw [split, line.stripCR_raw, text]
      rcases stripCR_append stripped with empty | ⟨cr, empty⟩
      · exact ⟨false, empty, by simp⟩
      · rw [empty] at text
        have bare : line.text = [] := text
        refine ⟨true, cr, fun _ => ⟨line, others, rfl, bare, ?_⟩⟩
        rw [cr, empty, List.append_nil, Line.raw, bare] at split
        by_contra other
        simp [other] at split

/-- A chunk in which the search ends, with the CR of the next line behind its LF, is a line that
ends in CR LF or a short one. -/
theorem fits_of_scansInside {line : Line}
    (isEmpty : carried = true → line.text = [] ∧ line.crlf = true)
    (clear : '\x00' ∉ line.left carried ++ '\n' :: carriedCR true)
    (inside : ScansInside (line.left carried ++ '\n' :: carriedCR true)) :
    line.crlf = true ∨ line.text.length < 510 := by
  by_contra neither
  push Not at neither
  have notCarried : carried = false := Bool.eq_false_iff.mpr fun carry =>
    neither.1 (isEmpty carry).2
  have bare : line.crlf = false := Bool.eq_false_iff.mpr neither.1
  rcases inside with shorter | nul | found
  · rw [notCarried] at shorter
    simp [Line.left, Line.raw, bare, carriedCR, MAX_MSG_LEN] at shorter
    omega
  · exact clear nul
  · rw [cstr_eq_self clear] at found
    obtain ⟨n, found⟩ := Option.isSome_iff_exists.mp found
    have last : '\n' ∉ carriedCR true := by decide
    have ended := (crlf_infix_iff (line.noNewline_left carried) last).mp (strstr_sound found)
    rw [notCarried] at ended
    simp [Line.left, Line.raw, bare] at ended
    exact line.bare bare ended

/-- A cut into lines is the only one that gives the lines. -/
theorem oneLineEach_of_requests (sizes : ∀ chunk ∈ reads, chunk ≠ [] ∧ chunk.length ≤ MAX_MSG_LEN)
    (noNul : ∀ chunk ∈ reads, '\x00' ∉ chunk)
    (empty : carried = true → ∃ line others, lines = line :: others ∧ line.text = [] ∧
      line.crlf = true)
    (whole : carriedCR carried ++ reads.flatten = lines.flatMap Line.bytes)
    (stored : requests reads = some (lines.map Line.text)) : OneLineEach carried lines reads := by
  induction reads generalizing carried lines with
  | nil =>
    have none : lines = [] := List.map_eq_nil_iff.mp (Option.some.inj stored).symm
    cases carried with
    | true =>
      obtain ⟨line, others, some, _⟩ := empty rfl
      rw [none] at some
      cases some
    | false =>
      rw [none]
      exact .nil
  | cons chunk rest ih =>
    cases lines with
    | nil =>
      obtain ⟨_, none⟩ := List.append_eq_nil_iff.mp whole
      exact absurd (List.append_eq_nil_iff.mp none).1 (sizes chunk List.mem_cons_self).1
    | cons line others =>
      have isEmpty : carried = true → line.text = [] ∧ line.crlf = true := by
        intro carry
        obtain ⟨_, _, same, text, crlf⟩ := empty carry
        obtain ⟨rfl, rfl⟩ := List.cons.inj same
        exact ⟨text, crlf⟩
      have left : (chunk :: rest).flatten =
          line.left carried ++ '\n' :: others.flatMap Line.bytes := by
        rw [List.flatMap_cons, Line.bytes, line.raw_eq_left isEmpty] at whole
        have joined : carriedCR carried ++ (chunk :: rest).flatten = carriedCR carried ++
            (line.left carried ++ '\n' :: others.flatMap Line.bytes) := by
          rw [whole]
          simp
        exact List.append_cancel_left joined
      have count : (chunk :: rest).flatten.count '\n' = (others.map Line.text).length + 1 := by
        have none := List.count_eq_zero.mpr (line.noNewline_left carried)
        rw [left, List.count_append, none, List.count_cons_self, count_lines, List.length_map]
        omega
      obtain ⟨before, after, rfl, first, last, text, inside, later, counted⟩ :=
        first_read (noNul chunk List.mem_cons_self) stored count
      rw [List.flatten_cons, List.append_assoc, List.cons_append] at left
      obtain ⟨rfl, behind⟩ := append_cons_inj_of_first first (line.noNewline_left carried) left
      have noNul' : ∀ chunk ∈ rest, '\x00' ∉ chunk := fun chunk member =>
        noNul chunk (List.mem_cons_of_mem _ member)
      obtain ⟨carries, rfl, next⟩ := carries_of_requests last noNul' behind later
        (by simpa using counted)
      have clear := noNul _ List.mem_cons_self
      refine .read isEmpty ?_ (ih (fun chunk member => sizes chunk (List.mem_cons_of_mem _ member))
        noNul' next behind later)
      rintro rfl
      exact fits_of_scansInside isEmpty clear inside

/-- The search for CR LF succeeds in a line that ends so, and other lines leave a NUL. -/
theorem scansInside_left {line : Line} {carries : Bool}
    (fits : carries = true → line.crlf = true ∨ line.text.length < 510)
    (noNul : '\x00' ∉ line.left carried ++ '\n' :: carriedCR carries) :
    ScansInside (line.left carried ++ '\n' :: carriedCR carries) := by
  have short := line.short
  have few : (carriedCR carries).length ≤ 1 := by cases carries <;> decide
  cases carried with
  | true =>
    refine .inl ?_
    simp only [Line.left, if_true, List.nil_append, List.length_cons, MAX_MSG_LEN]
    omega
  | false =>
    cases ended : line.crlf with
    | true =>
      refine .inr (.inr ?_)
      have apart : '\n' ∉ ['\r'] := by decide
      have found := strstr_append apart line.noNewline (carriedCR carries)
      have same : line.left false ++ '\n' :: carriedCR carries =
          line.text ++ (['\r'] ++ '\n' :: carriedCR carries) := by
        simp [Line.left, Line.raw, ended]
      rw [cstr_eq_self noNul, same, show ['\r', '\n'] = ['\r'] ++ ['\n'] from rfl, found]
      rfl
    | false =>
      refine .inl ?_
      have fits' : carries = true → line.text.length < 510 := fun carry =>
        (fits carry).resolve_left (by simp [ended])
      cases carries with
      | true =>
        have less := fits' rfl
        simp [Line.left, Line.raw, ended, carriedCR, MAX_MSG_LEN]
        omega
      | false =>
        simp [Line.left, Line.raw, ended, carriedCR, MAX_MSG_LEN]
        omega

/-- Reads that return one line each give the lines. -/
theorem requests_of_oneLineEach (oneLineEach : OneLineEach carried lines reads) :
    requests reads = some (lines.map Line.text) := by
  induction oneLineEach with
  | nil => rfl
  | read empty fits next ih =>
    rename_i carried carries line lines rest
    have first := line.noNewline_left carried
    have last := noNewline_carriedCR carries
    have noNul : '\x00' ∉ line.left carried ++ '\n' :: carriedCR carries := by
      have here : '\x00' ∉ line.left carried := by
        unfold Line.left
        split
        · exact List.not_mem_nil
        · exact line.noNul_raw
      have there : '\x00' ∉ carriedCR carries := by cases carries <;> decide
      simp [here, there]
    have inside := scansInside_left fits noNul
    unfold requests
    rw [if_pos inside, handleRead_single noNul first last, ih, line.stripCR_left empty]
    rfl

/-- The requests that `handle_read` stores are the lines of the client exactly if every read
returns one line, but that the CR of an empty line may come with the read before. -/
theorem requests_eq_lines_iff (cut : Cut lines reads) :
    requests reads = some (lines.map Line.text) ↔ OneLineEach false lines reads := by
  refine ⟨fun stored => ?_, requests_of_oneLineEach⟩
  have noNul : ∀ chunk ∈ reads, '\x00' ∉ chunk := by
    intro chunk member nul
    have there : '\x00' ∈ lines.flatMap Line.bytes := by
      rw [← cut.whole]
      exact List.mem_flatten.mpr ⟨chunk, member, nul⟩
    obtain ⟨line, _, inLine⟩ := List.mem_flatMap.mp there
    have notThere := line.noNul_raw
    simp [Line.bytes, notThere] at inLine
  have whole : carriedCR false ++ reads.flatten = lines.flatMap Line.bytes := cut.whole
  exact oneLineEach_of_requests cut.sizes noNul (by simp) whole stored

end

/-- A shift id, ended by CR LF. -/
def shiftLine : Line where
  text := "902001".toList
  crlf := true
  noNul := by decide
  noNewline := by decide
  short := by decide
  bare := by decide

/-- Nothing, ended by CR LF. -/
def emptyLine : Line where
  text := []
  crlf := true
  noNul := by decide
  noNewline := by decide
  short := by decide
  bare := by decide

/-- The CR of an empty line comes with the line before, its LF with the next read. -/
theorem requests_empty_line :
    requests ["902001\r\n\r".toList, "\n".toList] = some ["902001".toList, []] ∧
      OneLineEach false [shiftLine, emptyLine] ["902001\r\n\r".toList, "\n".toList] := by
  have cut : Cut [shiftLine, emptyLine] ["902001\r\n\r".toList, "\n".toList] := by
    constructor <;> decide
  have stored : requests ["902001\r\n\r".toList, "\n".toList] =
      some ([shiftLine, emptyLine].map Line.text) := by decide +kernel
  exact ⟨stored, (requests_eq_lines_iff cut).mp stored⟩

/-- Of two lines in one read the second is lost, and a read of half a line moves memory from
outside the buffers. -/
theorem requests_lose_lines :
    requests ["902001\r\n902001\r\n".toList] = some ["902001".toList] ∧
      requests ["902".toList, "001\r\n".toList] = none ∧
      ¬ ∀ lines reads, Cut lines reads → requests reads = some (lines.map Line.text) := by
  refine ⟨by decide +kernel, by decide +kernel, fun always => ?_⟩
  have cut : Cut [shiftLine] ["902".toList, "001\r\n".toList] := by
    constructor <;> decide
  have lost : requests ["902".toList, "001\r\n".toList] = none := by decide +kernel
  rw [always _ _ cut] at lost
  cases lost

end NTUSP.Server
